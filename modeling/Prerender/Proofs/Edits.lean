import Mathlib.Data.List.Pairwise
import Prerender.Edit

set_option autoImplicit false

/-!
Edits that are apart from each other. They are made from the end of a text to its beginning; since none
reaches into another, the text can be cut wherever no edit lies across: what stands before the cut and what
stands behind it are edited each by itself.
-/
namespace Prerender.Edit

def Apart (d e : Edit) : Prop :=
  d.span.start ≠ e.span.start ∧ (d.span.stop ≤ e.span.start ∨ e.span.stop ≤ d.span.start)

theorem Apart.symm {d e : Edit} (apart : Apart d e) : Apart e d :=
  ⟨fun same => apart.1 same.symm, apart.2.symm⟩

instance : Std.Symm Apart := ⟨fun _ _ apart => apart.symm⟩

theorem apart_perm {ds es : List Edit} (perm : ds.Perm es) : ds.Pairwise Apart ↔ es.Pairwise Apart :=
  perm.pairwise_iff fun parted => parted.symm

def Fits (n : Nat) (e : Edit) : Prop := e.span.start ≤ e.span.stop ∧ e.span.stop ≤ n

theorem Fits.low {n : Nat} {e : Edit} (fits : Fits n e) : e.span.start ≤ n := Nat.le_trans fits.1 fits.2

-- Whether `e` lies before `d`, which is made first.
def Follows (d e : Edit) : Prop := e.span.start < d.span.start ∧ e.span.stop ≤ d.span.start

theorem place_perm (e : Edit) (es : List Edit) : (place e es).Perm (e :: es) := by
  induction es with
  | nil => exact .refl _
  | cons d ds ih =>
      rw [place]
      split
      · exact .refl _
      · exact (ih.cons d).trans (.swap e d ds)

theorem foldl_place_perm (es placed : List Edit) :
    (es.foldl (fun es e => place e es) placed).Perm (es ++ placed) := by
  induction es generalizing placed with
  | nil => exact .refl _
  | cons e es ih => exact (ih (place e placed)).trans (((place_perm e placed).append_left es).trans List.perm_middle)

theorem inOrder_perm (es : List Edit) : (inOrder es).Perm es := by
  simpa only [inOrder, List.append_nil] using foldl_place_perm es []

theorem place_descends (e : Edit) (es : List Edit)
    (descends : es.Pairwise fun d e => e.span.start ≤ d.span.start) :
    (place e es).Pairwise fun d e => e.span.start ≤ d.span.start := by
  induction es with
  | nil => exact List.pairwise_singleton _ e
  | cons d ds ih =>
      obtain ⟨above, below⟩ := List.pairwise_cons.mp descends
      rw [place]
      split
      · rename_i first
        have start : d.span.start ≤ e.span.start := by
          simp only [precedes, Bool.or_eq_true, Bool.and_eq_true, decide_eq_true_eq, beq_iff_eq] at first
          omega
        refine List.pairwise_cons.mpr ⟨fun c member => ?_, descends⟩
        rcases List.mem_cons.mp member with rfl | member
        · exact start
        · exact Nat.le_trans (above c member) start
      · rename_i second
        have start : e.span.start ≤ d.span.start := by
          simp only [precedes, Bool.or_eq_true, Bool.and_eq_true, decide_eq_true_eq, beq_iff_eq] at second
          omega
        refine List.pairwise_cons.mpr ⟨fun c member => ?_, ih below⟩
        rcases List.mem_cons.mp ((place_perm e ds).mem_iff.mp member) with rfl | member
        · exact start
        · exact above c member

theorem foldl_place_descends (es placed : List Edit)
    (descends : placed.Pairwise fun d e => e.span.start ≤ d.span.start) :
    (es.foldl (fun es e => place e es) placed).Pairwise fun d e => e.span.start ≤ d.span.start := by
  induction es generalizing placed with
  | nil => exact descends
  | cons e es ih => exact ih (place e placed) (place_descends e placed descends)

section
variable {es : List Edit} {n : Nat}

theorem inOrder_follows (apart : es.Pairwise Apart) (fits : ∀ e ∈ es, Fits n e) :
    (inOrder es).Pairwise Follows := by
  have parted : (inOrder es).Pairwise Apart := (apart_perm (inOrder_perm es)).mpr apart
  have descends := foldl_place_descends es [] .nil
  apply List.Pairwise.imp_of_mem ?_ (parted.and descends)
  intro d e d_made _ ⟨⟨different, sides⟩, order⟩
  have d_fits := fits d ((inOrder_perm es).mem_iff.mp d_made)
  unfold Fits at d_fits
  unfold Follows
  omega

theorem eq_of_follows {ds : List Edit} (perm : ds.Perm es) (ds_follow : ds.Pairwise Follows)
    (es_follow : es.Pairwise Follows) : ds = es := by
  refine perm.eq_of_pairwise (fun d e _ _ there back => ?_) ds_follow es_follow
  exact absurd (Nat.lt_trans there.1 back.1) (Nat.lt_irrefl _)

-- Edits on the two sides of a cut: those behind it are made before those in front of it.
theorem inOrder_cut (a : Nat) (left : Edit → Bool) (apart : es.Pairwise Apart) (fits : ∀ e ∈ es, Fits n e)
    (in_front : ∀ e ∈ es, left e = true → e.span.stop ≤ a)
    (behind : ∀ e ∈ es, left e = false → a ≤ e.span.start) :
    inOrder es = inOrder (es.filter fun e => !left e) ++ inOrder (es.filter left) := by
  have keep (which : Edit → Bool) : (es.filter which).Pairwise Apart ∧ ∀ e ∈ es.filter which, Fits n e :=
    ⟨apart.filter which, fun e member => fits e (List.mem_filter.mp member |>.1)⟩
  have parted : ∀ d ∈ es, ∀ e ∈ es, left d = false → left e = true → Follows d e := by
    intro d d_in e e_in d_right e_left
    have d_side := behind d d_in d_right
    have e_side := in_front e e_in e_left
    have e_fits := fits e e_in
    have different : d ≠ e := fun same => by simp [same, e_left] at d_right
    have starts : Apart d e := apart.forall d_in e_in different
    unfold Fits at e_fits
    unfold Apart at starts
    unfold Follows
    omega
  apply eq_of_follows
  · exact (inOrder_perm es).trans (((inOrder_perm _).append (inOrder_perm _)).trans
      ((List.perm_append_comm).trans (List.filter_append_perm left es))).symm
  · exact inOrder_follows apart fits
  · refine List.pairwise_append.mpr ⟨inOrder_follows (keep _).1 (keep _).2,
      inOrder_follows (keep _).1 (keep _).2, fun d d_made e e_made => ?_⟩
    obtain ⟨d_in, d_right⟩ := List.mem_filter.mp ((inOrder_perm _).mem_iff.mp d_made)
    obtain ⟨e_in, e_left⟩ := List.mem_filter.mp ((inOrder_perm _).mem_iff.mp e_made)
    exact parted d d_in e e_in (by simpa using d_right) e_left

end

theorem length_apply (e : Edit) (cs : List Char) (fits : Fits cs.length e) :
    e.span.start ≤ (e.apply cs).length := by
  unfold Fits at fits
  simp only [apply, List.length_append, List.length_take]
  omega

theorem take_apply (e : Edit) (cs : List Char) (b : Nat) (fits : Fits cs.length e) (behind : b ≤ e.span.start) :
    (e.apply cs).take b = cs.take b := by
  unfold Fits at fits
  rw [apply, List.append_assoc, List.take_append_of_le_length (by rw [List.length_take]; omega), List.take_take,
    Nat.min_eq_left behind]

theorem apply_append (e : Edit) (cs rest : List Char) (fits : Fits cs.length e) :
    e.apply (cs ++ rest) = e.apply cs ++ rest := by
  unfold Fits at fits
  simp only [apply, List.append_assoc]
  rw [List.take_append_of_le_length (by omega), List.drop_append_of_le_length fits.2]

-- The edits that are left to make end where the last one began, so they fit what it has left in front.
theorem fits_apply {d e : Edit} {cs : List Char} (d_fits : Fits cs.length d) (e_fits : Fits cs.length e)
    (follows : Follows d e) : Fits (d.apply cs).length e :=
  ⟨e_fits.1, Nat.le_trans follows.2 (length_apply d cs d_fits)⟩

theorem take_foldl_apply (es : List Edit) (cs : List Char) (b : Nat) (follow : es.Pairwise Follows)
    (fits : ∀ e ∈ es, Fits cs.length e) (behind : ∀ e ∈ es, b ≤ e.span.start) :
    (es.foldl (fun cs e => e.apply cs) cs).take b = cs.take b := by
  induction es generalizing cs with
  | nil => rfl
  | cons d es ih =>
      obtain ⟨d_last, follow⟩ := List.pairwise_cons.mp follow
      have d_fits := fits d List.mem_cons_self
      rw [List.foldl_cons, ih (d.apply cs) follow
        (fun e member => fits_apply d_fits (fits e (List.mem_cons_of_mem d member)) (d_last e member))
        (fun e member => behind e (List.mem_cons_of_mem d member))]
      exact take_apply d cs b d_fits (behind d List.mem_cons_self)

theorem foldl_apply_append (es : List Edit) (cs rest : List Char) (follow : es.Pairwise Follows)
    (fits : ∀ e ∈ es, Fits cs.length e) :
    es.foldl (fun cs e => e.apply cs) (cs ++ rest) = es.foldl (fun cs e => e.apply cs) cs ++ rest := by
  induction es generalizing cs with
  | nil => rfl
  | cons d es ih =>
      obtain ⟨d_last, follow⟩ := List.pairwise_cons.mp follow
      have d_fits := fits d List.mem_cons_self
      rw [List.foldl_cons, List.foldl_cons, apply_append d cs rest d_fits]
      exact ih (d.apply cs) follow fun e member =>
        fits_apply d_fits (fits e (List.mem_cons_of_mem d member)) (d_last e member)

section
variable {es : List Edit} {cs : List Char}

theorem take_applyAll (b : Nat) (apart : es.Pairwise Apart) (fits : ∀ e ∈ es, Fits cs.length e)
    (behind : ∀ e ∈ es, b ≤ e.span.start) : (applyAll es cs).take b = cs.take b :=
  take_foldl_apply (inOrder es) cs b (inOrder_follows apart fits)
    (fun e member => fits e ((inOrder_perm es).mem_iff.mp member))
    (fun e member => behind e ((inOrder_perm es).mem_iff.mp member))

theorem applyAll_cut (a : Nat) (left : Edit → Bool) (apart : es.Pairwise Apart)
    (fits : ∀ e ∈ es, Fits cs.length e) (low : a ≤ cs.length)
    (in_front : ∀ e ∈ es, left e = true → e.span.stop ≤ a)
    (behind : ∀ e ∈ es, left e = false → a ≤ e.span.start) :
    applyAll es cs = applyAll (es.filter left) (cs.take a) ++ (applyAll (es.filter fun e => !left e) cs).drop a := by
  have front_fits : ∀ e ∈ es.filter left, Fits (cs.take a).length e := by
    intro e member
    obtain ⟨e_in, e_left⟩ := List.mem_filter.mp member
    exact ⟨(fits e e_in).1, by rw [List.length_take, Nat.min_eq_left low]; exact in_front e e_in e_left⟩
  have kept : (applyAll (es.filter fun e => !left e) cs).take a = cs.take a := by
    refine take_applyAll a (apart.filter _) (fun e member => fits e (List.mem_filter.mp member |>.1)) ?_
    intro e member
    obtain ⟨e_in, e_right⟩ := List.mem_filter.mp member
    exact behind e e_in (by simpa using e_right)
  calc applyAll es cs
      = (inOrder (es.filter left)).foldl (fun cs e => e.apply cs) (applyAll (es.filter fun e => !left e) cs) := by
        rw [applyAll, inOrder_cut a left apart fits in_front behind, List.foldl_append]
        rfl
    _ = (inOrder (es.filter left)).foldl (fun cs e => e.apply cs)
          (cs.take a ++ (applyAll (es.filter fun e => !left e) cs).drop a) := by
        rw [← kept, List.take_append_drop]
    _ = applyAll (es.filter left) (cs.take a) ++ (applyAll (es.filter fun e => !left e) cs).drop a :=
        foldl_apply_append _ _ _ (inOrder_follows (apart.filter _) front_fits)
          fun e member => front_fits e ((inOrder_perm _).mem_iff.mp member)

end

def front (es : List Edit) (cs : List Char) (a : Nat) : List Char :=
  applyAll (es.filter fun e => e.span.stop ≤ a) (cs.take a)

def back (es : List Edit) (cs : List Char) (b : Nat) : List Char :=
  (applyAll (es.filter fun e => b ≤ e.span.start) cs).drop b

section
variable {es : List Edit} {cs : List Char}

theorem applyAll_spared (a b : Nat) (apart : es.Pairwise Apart) (fits : ∀ e ∈ es, Fits cs.length e)
    (stretch : a < b) (low : b ≤ cs.length) (spared : ∀ e ∈ es, e.span.stop ≤ a ∨ b ≤ e.span.start) :
    applyAll es cs = front es cs a ++ ((cs.take b).drop a ++ back es cs b) := by
  have behind : es.filter (fun e => !decide (e.span.stop ≤ a)) = es.filter fun e => b ≤ e.span.start := by
    apply List.filter_congr
    intro e member
    have sides := spared e member
    have e_fits := (fits e member).1
    simp only [← decide_not, decide_eq_decide]
    omega
  have kept : (applyAll (es.filter fun e => b ≤ e.span.start) cs).take b = cs.take b :=
    take_applyAll b (apart.filter _) (fun e member => fits e (List.mem_filter.mp member).1)
      fun e member => by simpa using (List.mem_filter.mp member).2
  have tail : (applyAll (es.filter fun e => b ≤ e.span.start) cs).drop a = (cs.take b).drop a ++ back es cs b := by
    rw [back, ← kept, ← List.drop_append_of_le_length, List.take_append_drop]
    rw [kept, List.length_take]
    omega
  rw [applyAll_cut a (fun e => e.span.stop ≤ a) apart fits (by omega), behind, tail]
  · rfl
  · exact fun e _ ends => by simpa using ends
  · intro e member across
    have sides := spared e member
    simp only [decide_eq_false_iff_not] at across
    omega

theorem filter_self (e : Edit) (once : es.Nodup) (made : e ∈ es) : es.filter (fun d => d == e) = [e] := by
  rw [List.filter_beq, List.Nodup.count once, if_pos made]
  rfl

theorem filter_behind (e : Edit) (apart : es.Pairwise Apart) (fits : ∀ e ∈ es, Fits cs.length e) (made : e ∈ es)
    (stretch : e.span.start < e.span.stop) :
    (es.filter fun d => !decide (d.span.stop ≤ e.span.start)).filter (fun d => !(d == e)) =
      es.filter fun d => e.span.stop ≤ d.span.start := by
  rw [List.filter_filter]
  apply List.filter_congr
  intro d member
  have d_fits := (fits d member).1
  by_cases same : d = e
  · subst same
    rw [beq_self_eq_true, Bool.not_true, Bool.false_and]
    exact (decide_eq_false (Nat.not_le_of_lt stretch)).symm
  · have side := (apart.forall member made same).2
    rw [beq_eq_false_iff_ne.mpr same, Bool.not_false, Bool.true_and, ← decide_not, decide_eq_decide]
    omega

theorem applyAll_alone (e : Edit) (cs : List Char) (stretch : e.span.start < e.span.stop) :
    applyAll [e] (cs.take e.span.stop) = cs.take e.span.start ++ e.text.toList := by
  show e.apply (cs.take e.span.stop) = _
  rw [apply, List.take_take, Nat.min_eq_left (Nat.le_of_lt stretch), List.drop_take_self, List.append_nil]

-- The text of an edit takes the place of its stretch. The edits are cut in two in front of it, and the ones
-- behind that cut once more behind it, so that it is left alone between them.
theorem applyAll_made (e : Edit) (apart : es.Pairwise Apart) (fits : ∀ e ∈ es, Fits cs.length e)
    (made : e ∈ es) (stretch : e.span.start < e.span.stop) :
    applyAll es cs = front es cs e.span.start ++ (e.text.toList ++ back es cs e.span.stop) := by
  have once : es.Nodup := apart.imp fun parted same => parted.1 (congrArg (·.span.start) same)
  have onward : e ∈ es.filter fun d => !decide (d.span.stop ≤ e.span.start) := by
    refine List.mem_filter.mpr ⟨made, ?_⟩
    simpa using stretch
  have tail : (applyAll (es.filter fun d => !decide (d.span.stop ≤ e.span.start)) cs).drop e.span.start =
      e.text.toList ++ back es cs e.span.stop := by
    rw [applyAll_cut e.span.stop (fun d => d == e) (apart.filter _)
      (fun d member => fits d (List.mem_filter.mp member).1) (fits e made).2, filter_self e (once.filter _) onward,
      filter_behind e apart fits made stretch, applyAll_alone e cs stretch, List.append_assoc, List.drop_left']
    · rfl
    · rw [List.length_take]
      have e_fits := fits e made
      unfold Fits at e_fits
      omega
    · exact fun d _ same => Nat.le_of_eq (by rw [beq_iff_eq.mp same])
    · intro d member different
      obtain ⟨d_in, d_right⟩ := List.mem_filter.mp member
      refine (apart.forall d_in made (by simpa using different)).2.resolve_left ?_
      simpa using d_right
  rw [applyAll_cut e.span.start (fun d => d.span.stop ≤ e.span.start) apart fits (fits e made).low,
    tail]
  · rfl
  · exact fun d _ ends => by simpa using ends
  · intro d member across
    simp only [decide_eq_false_iff_not] at across
    by_cases same : d = e
    · exact Nat.le_of_eq (congrArg (·.span.start) same.symm)
    · have side := (apart.forall member made same).2
      omega

end

end Prerender.Edit
