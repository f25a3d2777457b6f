import Prerender.Proofs.Edits

set_option autoImplicit false

/-!
Edits in the order in which they stand in a text. The text that they make can then be written from its
beginning to its end: what stands in front of an edit, the text of the edit, and what the edits behind it
make of the rest.
-/
namespace Prerender.Edit

def stretch (cs : List Char) (a b : Nat) : List Char := (cs.take b).drop a

def weave (cs : List Char) (b : Nat) : Nat → List Edit → List Char
  | a, [] => stretch cs a b
  | a, e :: es => stretch cs a e.span.start ++ (e.text.toList ++ weave cs b e.span.stop es)

theorem stretch_append (cs : List Char) {a b c : Nat} (left : a ≤ b) (right : b ≤ c) :
    stretch cs a b ++ stretch cs b c = stretch cs a c := by
  have parts : (cs.take c).take b ++ (cs.take c).drop b = cs.take c := List.take_append_drop b _
  rw [List.take_take, Nat.min_eq_left right] at parts
  by_cases low : b ≤ cs.length
  · have begins : a ≤ (cs.take b).length := by rw [List.length_take]; omega
    rw [stretch, stretch, stretch, ← List.drop_append_of_le_length begins, parts]
  · have nothing : (cs.take c).drop b = [] := List.drop_eq_nil_iff.mpr (by rw [List.length_take]; omega)
    rw [nothing, List.append_nil] at parts
    rw [stretch, stretch, stretch, nothing, List.append_nil, parts]

theorem stretch_self (cs : List Char) (a : Nat) : stretch cs a a = [] :=
  List.drop_eq_nil_iff.mpr (by rw [List.length_take]; exact Nat.min_le_left _ _)

structure Between (a b : Nat) (es : List Edit) : Prop where
  within : ∀ e ∈ es, a ≤ e.span.start ∧ e.span.start ≤ e.span.stop ∧ e.span.stop ≤ b ∧ e.span.start < b
  ascend : es.Pairwise fun d e => Follows e d

namespace Between

variable {a b c : Nat} {e : Edit} {es ds : List Edit}

theorem tail (between : Between a b (e :: es)) : Between e.span.stop b es := by
  obtain ⟨follow, ascend⟩ := List.pairwise_cons.mp between.ascend
  exact ⟨fun d member => ⟨(follow d member).2, (between.within d (List.mem_cons_of_mem e member)).2⟩, ascend⟩

theorem append (first : Between a c es) (second : Between c b ds) (low : a ≤ c) (high : c ≤ b) :
    Between a b (es ++ ds) := by
  refine ⟨fun e member => ?_, List.pairwise_append.mpr ⟨first.ascend, second.ascend, fun e e_in d d_in => ?_⟩⟩
  · rcases List.mem_append.mp member with here | there
    · have inside := first.within e here
      omega
    · have inside := second.within e there
      omega
  · have e_inside := first.within e e_in
    have d_inside := second.within d d_in
    unfold Follows
    omega

theorem apart (between : Between a b es) : es.Pairwise Apart :=
  between.ascend.imp fun follows => ⟨Nat.ne_of_lt follows.1, .inl follows.2⟩

end Between

variable {cs : List Char} {a b c : Nat} {es ds : List Edit}

theorem weave_append (first : Between a c es) (second : Between c b ds) (low : a ≤ c) (high : c ≤ b) :
    weave cs b a (es ++ ds) = weave cs c a es ++ weave cs b c ds := by
  induction es generalizing a with
  | nil =>
      cases ds with
      | nil => exact (stretch_append cs low high).symm
      | cons d ds =>
          have inside := (second.within d List.mem_cons_self).1
          rw [List.nil_append, weave, weave, weave, ← stretch_append cs low inside, List.append_assoc]
  | cons e es ih =>
      rw [List.cons_append, weave, weave, ih first.tail (first.within e List.mem_cons_self).2.2.1]
      simp only [List.append_assoc]

theorem foldr_apply (between : Between a cs.length es) (low : a ≤ cs.length) :
    es.foldr (fun e cs => e.apply cs) cs = cs.take a ++ weave cs cs.length a es := by
  induction es generalizing a with
  | nil => rw [List.foldr_nil, weave, stretch, List.take_length, List.take_append_drop]
  | cons e es ih =>
      obtain ⟨before, stretches, behind, -⟩ := between.within e List.mem_cons_self
      have begins : (cs.take e.span.stop).length = e.span.stop := by
        rw [List.length_take]
        exact Nat.min_eq_left behind
      have front : cs.take a ++ stretch cs a e.span.start = cs.take e.span.start :=
        stretch_append cs (Nat.zero_le a) before
      rw [List.foldr_cons, ih between.tail behind, apply, List.take_append_of_le_length (by omega), List.take_take,
        Nat.min_eq_left stretches, List.drop_append_of_le_length (by omega), List.drop_of_length_le (by omega),
        List.nil_append, weave, ← List.append_assoc (cs.take a), front, List.append_assoc]

structure Woven (cs : List Char) (a b : Nat) (es : List Edit) (text : List Char) : Prop where
  between : Between a b es
  made : weave cs b a es = text

namespace Woven

variable {left right : List Char}

theorem gap (cs : List Char) (a b : Nat) : Woven cs a b [] (stretch cs a b) := ⟨⟨nofun, .nil⟩, rfl⟩

theorem one {e : Edit} (stretches : e.span.start ≤ e.span.stop) (behind : e.span.stop ≤ b)
    (room : e.span.start < b) : Woven cs e.span.start b [e] (e.text.toList ++ stretch cs e.span.stop b) := by
  refine ⟨⟨List.forall_mem_singleton.mpr ⟨Nat.le_refl _, stretches, behind, room⟩, List.pairwise_singleton _ _⟩, ?_⟩
  rw [weave, weave, stretch_self, List.nil_append]

theorem alone (cs : List Char) {e : Edit} (stretches : e.span.start < e.span.stop) :
    Woven cs e.span.start e.span.stop [e] e.text.toList := by
  have whole : Woven cs e.span.start e.span.stop [e] _ := one (Nat.le_of_lt stretches) (Nat.le_refl _) stretches
  rwa [stretch_self, List.append_nil] at whole

theorem append (first : Woven cs a c es left) (second : Woven cs c b ds right) (low : a ≤ c) (high : c ≤ b) :
    Woven cs a b (es ++ ds) (left ++ right) :=
  ⟨first.between.append second.between low high,
    first.made ▸ second.made ▸ weave_append first.between second.between low high⟩

theorem applyAll_eq (woven : Woven cs 0 cs.length ds left) (perm : ds.Perm es) : applyAll es cs = left := by
  obtain ⟨between, rfl⟩ := woven
  have apart : es.Pairwise Apart := (apart_perm perm).mp between.apart
  have fits : ∀ e ∈ es, Fits cs.length e := fun e member =>
    ⟨(between.within e (perm.mem_iff.mpr member)).2.1, (between.within e (perm.mem_iff.mpr member)).2.2.1⟩
  have order : inOrder es = ds.reverse :=
    eq_of_follows ((inOrder_perm es).trans (perm.symm.trans ds.reverse_perm.symm)) (inOrder_follows apart fits)
      (List.pairwise_reverse.mpr between.ascend)
  rw [applyAll, order, List.foldl_reverse]
  exact foldr_apply between (Nat.zero_le _)

end Woven

end Prerender.Edit
