import Prerender.Proofs.Edits

set_option autoImplicit false

/-!
Edits made all at once. Every position of a text is looked at by itself: what the edits put in front of it,
and whether one of them covers it. Edits that are apart come to the same when they are made one after the
other, in whatever order, if each is made where the earlier ones have moved its stretch.
-/
namespace Prerender.Edit

variable {α : Type}

section
variable {put put' : Nat → List α} {out out' : Nat → Bool} {i : Nat} {xs ys : List α}

-- A text that stands from a position on, with something put in front of each position and some left out.
def spread (put : Nat → List α) (out : Nat → Bool) : Nat → List α → List α
  | _, [] => []
  | i, x :: xs => put i ++ ((if out i then [] else [x]) ++ spread put out (i + 1) xs)

-- The same with what is put behind the text.
def onward (put : Nat → List α) (out : Nat → Bool) (i : Nat) (xs : List α) : List α :=
  spread put out i xs ++ put (i + xs.length)

theorem spread_append : spread put out i (xs ++ ys) = spread put out i xs ++ spread put out (i + xs.length) ys := by
  induction xs generalizing i with
  | nil => rfl
  | cons x xs ih =>
      rw [List.cons_append, spread, spread, ih, List.length_cons, Nat.add_right_comm, ← Nat.add_assoc]
      simp only [List.append_assoc]

theorem onward_append : onward put out i (xs ++ ys) = spread put out i xs ++ onward put out (i + xs.length) ys := by
  rw [onward, spread_append, onward, List.length_append, ← Nat.add_assoc, List.append_assoc]

theorem spread_congr (same : ∀ j, i ≤ j → j < i + xs.length → put j = put' j ∧ out j = out' j) :
    spread put out i xs = spread put' out' i xs := by
  induction xs generalizing i with
  | nil => rfl
  | cons x xs ih =>
      rw [List.length_cons] at same
      obtain ⟨here, gone⟩ := same i (Nat.le_refl i) (by omega)
      rw [spread, spread, here, gone, ih fun j behind before => same j (by omega) (by omega)]

theorem onward_congr (same : ∀ j, i ≤ j → put j = put' j ∧ out j = out' j) :
    onward put out i xs = onward put' out' i xs := by
  rw [onward, onward, spread_congr fun j behind _ => same j behind, (same _ (Nat.le_add_right i _)).1]

theorem spread_verbatim (still : ∀ j, i ≤ j → j < i + xs.length → put j = [] ∧ out j = false) :
    spread put out i xs = xs := by
  induction xs generalizing i with
  | nil => rfl
  | cons x xs ih =>
      rw [List.length_cons] at still
      obtain ⟨bare, kept⟩ := still i (Nat.le_refl i) (by omega)
      rw [spread, bare, kept, ih fun j behind before => still j (by omega) (by omega)]
      rfl

theorem spread_covered (gone : ∀ j, i ≤ j → j < i + xs.length → put j = [] ∧ out j = true) :
    spread put out i xs = [] := by
  induction xs generalizing i with
  | nil => rfl
  | cons x xs ih =>
      rw [List.length_cons] at gone
      obtain ⟨bare, covered⟩ := gone i (Nat.le_refl i) (by omega)
      rw [spread, bare, covered, ih fun j behind before => gone j (by omega) (by omega)]
      rfl

-- A stretch with something put in front of it alone, that is covered as a whole or not at all.
theorem spread_block (some_room : xs ≠ []) (bare : ∀ j, i < j → j < i + xs.length → put j = [])
    (even : ∀ j, i ≤ j → j < i + xs.length → out j = out i) :
    spread put out i xs = put i ++ (if out i then [] else xs) := by
  cases xs with
  | nil => exact absurd rfl some_room
  | cons x xs =>
      rw [List.length_cons] at bare even
      rw [spread]
      congr 1
      split
      · rename_i covered
        exact spread_covered fun j behind before =>
          ⟨bare j (by omega) (by omega), (even j (by omega) (by omega)).trans covered⟩
      · rename_i kept
        rw [spread_verbatim fun j behind before => ⟨bare j (by omega) (by omega),
          (even j (by omega) (by omega)).trans (Bool.not_eq_true _ ▸ kept)⟩]
        rfl

theorem onward_put {text : List α} (first : put i = text ++ put' i) (same : ∀ j, i < j → put j = put' j) :
    onward put out i xs = text ++ onward put' out i xs := by
  cases xs with
  | nil => exact first
  | cons x xs =>
      have rest : onward put out (i + 1) xs = onward put' out (i + 1) xs :=
        onward_congr fun j behind => ⟨same j behind, rfl⟩
      have length : i + (x :: xs).length = i + 1 + xs.length := by rw [List.length_cons]; omega
      rw [onward, onward, spread, spread, length, first]
      simpa only [onward, List.append_assoc, List.append_cancel_left_eq] using rest

theorem spread_sublist : (spread (fun _ => []) out i xs).Sublist (spread put out i xs) := by
  induction xs generalizing i with
  | nil => exact .refl _
  | cons x xs ih => exact (((List.Sublist.refl _).append ih).trans (List.sublist_append_right _ _))

end

variable (write : String → List α)

def textsAt (es : List Edit) (i : Nat) : List α :=
  (es.filter fun e => e.span.start == i).flatMap fun e => write e.text

def covers (es : List Edit) (i : Nat) : Bool := es.any fun e => e.span.start ≤ i && i < e.span.stop

def together (es : List Edit) (xs : List α) : List α := onward (textsAt write es) (covers es) 0 xs

def replace (e : Edit) (xs : List α) : List α := xs.take e.span.start ++ write e.text ++ xs.drop e.span.stop

-- An edit where others have moved it: each that begins before it, by what that one adds or takes away.
def moved (made : List Edit) (e : Edit) : Edit :=
  let start := made.foldr (fun d i =>
    if d.span.start < e.span.start then i + (write d.text).length - (d.span.stop - d.span.start) else i) e.span.start
  ⟨⟨start, start + (e.span.stop - e.span.start)⟩, e.text⟩

variable {write} {e : Edit} {es : List Edit}

theorem textsAt_cons (i : Nat) :
    textsAt write (e :: es) i = (if e.span.start = i then write e.text else []) ++ textsAt write es i := by
  unfold textsAt
  rw [List.filter_cons]
  by_cases here : e.span.start = i
  · rw [if_pos (beq_iff_eq.mpr here), if_pos here, List.flatMap_cons]
  · rw [if_neg (by simpa using here), if_neg here, List.nil_append]

theorem textsAt_nil {i : Nat} (bare : ∀ d ∈ es, d.span.start ≠ i) : textsAt write es i = [] := by
  unfold textsAt
  rw [List.filter_eq_nil_iff.mpr fun d member => by simpa using bare d member]
  rfl

theorem covers_cons (i : Nat) : covers (e :: es) i = (decide (e.span.start ≤ i ∧ i < e.span.stop) || covers es i) := by
  rw [covers, List.any_cons, Bool.decide_and]
  rfl

theorem textsAt_perm {ds : List Edit} (perm : ds.Perm es) (apart : ds.Pairwise Apart) (i : Nat) :
    textsAt write ds i = textsAt write es i := by
  induction perm with
  | nil => rfl
  | cons e _ ih => rw [textsAt_cons, textsAt_cons, ih (List.pairwise_cons.mp apart).2]
  | swap d e es =>
      have different := ((List.pairwise_cons.mp apart).1 d List.mem_cons_self).1
      rw [textsAt_cons, textsAt_cons, textsAt_cons, textsAt_cons]
      by_cases here : e.span.start = i
      · rw [if_pos here, if_neg fun there => different (here.trans there.symm)]
        rfl
      · rw [if_neg here]
        rfl
  | trans first _ ih ih' => exact (ih apart).trans (ih' ((apart_perm first).mp apart))

theorem together_perm {ds : List Edit} (perm : ds.Perm es) (apart : ds.Pairwise Apart) (xs : List α) :
    together write ds xs = together write es xs := by
  have texts : textsAt write ds = textsAt write es := funext (textsAt_perm perm apart)
  have cover : covers ds = covers es := funext fun i => perm.any_eq
  rw [together, together, texts, cover]

theorem spread_front {x : List α} (behind : x.length ≤ e.span.start) :
    spread (textsAt write (e :: es)) (covers (e :: es)) 0 x = spread (textsAt write es) (covers es) 0 x := by
  refine spread_congr fun j _ before => ?_
  rw [textsAt_cons, covers_cons, if_neg (by omega), decide_eq_false (by omega)]
  exact ⟨rfl, rfl⟩

theorem take_append_stretch {a b : Nat} (xs : List α) (order : a ≤ b) : xs.take a ++ (xs.take b).drop a = xs.take b := by
  have first : (xs.take b).take a = xs.take a := by rw [List.take_take, Nat.min_eq_left order]
  rw [← first, List.take_append_drop]

theorem exists_parts {a b : Nat} (xs : List α) (low : a ≤ b) (high : b ≤ xs.length) :
    ∃ x y z, xs = x ++ (y ++ z) ∧ x.length = a ∧ x.length + y.length = b := by
  refine ⟨xs.take a, (xs.take b).drop a, xs.drop b, ?_, ?_, ?_⟩
  · rw [← List.append_assoc, take_append_stretch xs low, List.take_append_drop]
  · rw [List.length_take, Nat.min_eq_left (Nat.le_trans low high)]
  · rw [List.length_drop, List.length_take, List.length_take]
    omega

structure Among (e : Edit) (es : List Edit) : Prop where
  apart : ∀ d ∈ es, Apart e d
  run : ∀ d ∈ es, d.span.start ≤ d.span.stop
  own : e.span.start ≤ e.span.stop

namespace Among

theorem spared (among : Among e es) {i : Nat} (from_start : e.span.start ≤ i) (to_stop : i < e.span.stop) :
    textsAt write es i = [] ∧ covers es i = false := by
  have parted : ∀ d ∈ es, d.span.start ≤ d.span.stop ∧ Apart e d :=
    fun d member => ⟨among.run d member, among.apart d member⟩
  unfold Apart at parted
  constructor
  · refine textsAt_nil fun d member => ?_
    have sides := parted d member
    omega
  · refine List.any_eq_false.mpr fun d member => ?_
    have sides := parted d member
    simp only [Bool.and_eq_true, decide_eq_true_eq]
    omega

variable {x y z : List α}

theorem together_eq (write : String → List α) (among : Among e es) (begins : x.length = e.span.start)
    (ends : x.length + y.length = e.span.stop) :
    together write es (x ++ (y ++ z)) =
      spread (textsAt write es) (covers es) 0 x ++ (y ++ onward (textsAt write es) (covers es) e.span.stop z) := by
  have still : spread (textsAt write es) (covers es) e.span.start y = y :=
    spread_verbatim fun j behind before => among.spared behind (by omega)
  rw [together, onward_append, onward_append, Nat.zero_add, ends, begins, still]

theorem together_cons (write : String → List α) (among : Among e es) (begins : x.length = e.span.start)
    (ends : x.length + y.length = e.span.stop) :
    together write (e :: es) (x ++ (y ++ z)) = spread (textsAt write es) (covers es) 0 x ++
      (write e.text ++ onward (textsAt write es) (covers es) e.span.stop z) := by
  have front : spread (textsAt write (e :: es)) (covers (e :: es)) 0 x = spread (textsAt write es) (covers es) 0 x :=
    spread_front (Nat.le_of_eq begins)
  have put : onward (textsAt write (e :: es)) (covers (e :: es)) e.span.start (y ++ z) =
      write e.text ++ onward (textsAt write es) (covers (e :: es)) e.span.start (y ++ z) := by
    refine onward_put ?_ fun j behind => ?_
    · rw [textsAt_cons, if_pos rfl]
    · rw [textsAt_cons, if_neg (by omega), List.nil_append]
  have gone : spread (textsAt write es) (covers (e :: es)) e.span.start y = [] := by
    refine spread_covered fun j behind before => ?_
    rw [covers_cons, decide_eq_true (by omega)]
    exact ⟨(among.spared behind (by omega)).1, rfl⟩
  have back : onward (textsAt write es) (covers (e :: es)) e.span.stop z =
      onward (textsAt write es) (covers es) e.span.stop z := by
    refine onward_congr fun j behind => ?_
    rw [covers_cons, decide_eq_false (by omega)]
    exact ⟨rfl, rfl⟩
  have stop : e.span.start + y.length = e.span.stop := begins ▸ ends
  rw [together, onward_append, front, Nat.zero_add, begins, put, onward_append, gone, stop, back, List.nil_append]

theorem length_spread_cons (write : String → List α) (among : Among e es) (before : e.span.start < x.length)
    (within : e.span.stop ≤ x.length) :
    (spread (textsAt write (e :: es)) (covers (e :: es)) 0 x).length + (e.span.stop - e.span.start) =
      (spread (textsAt write es) (covers es) 0 x).length + (write e.text).length := by
  obtain ⟨front, own, back, rfl, begins, ends⟩ := exists_parts x among.own within
  have without := congrArg List.length (among.together_eq write (z := back) begins ends)
  have made := congrArg List.length (among.together_cons write (z := back) begins ends)
  have beyond : textsAt write (e :: es) (0 + (front ++ (own ++ back)).length) =
      textsAt write es (0 + (front ++ (own ++ back)).length) := by
    rw [textsAt_cons, if_neg (by omega), List.nil_append]
  rw [together, onward] at without made
  rw [beyond] at made
  simp only [List.length_append] at without made ⊢
  omega

end Among

theorem start_moved (write : String → List α) {x : List α} (apart : es.Pairwise Apart) (among : Among e es)
    (begins : x.length = e.span.start) :
    (moved write es e).span.start = (spread (textsAt write es) (covers es) 0 x).length := by
  unfold moved
  induction es with
  | nil => exact begins ▸ (congrArg List.length (spread_verbatim fun _ _ _ => ⟨rfl, rfl⟩)).symm
  | cons d es ih =>
      obtain ⟨first, rest⟩ := List.pairwise_cons.mp apart
      obtain ⟨d_run, run⟩ := List.forall_mem_cons.mp among.run
      obtain ⟨⟨different, sides⟩, parted⟩ := List.forall_mem_cons.mp among.apart
      have start := ih rest ⟨parted, run, among.own⟩
      have own := among.own
      rw [List.foldr_cons]
      split
      · rename_i before
        have length := Among.length_spread_cons write (x := x) ⟨first, run, d_run⟩ (by omega) (by omega)
        simp only at start ⊢
        omega
      · rename_i behind
        rw [spread_front (by omega)]
        exact start

variable {xs : List α}

theorem replace_moved (apart : es.Pairwise Apart) (among : Among e es) (fits : Fits xs.length e) :
    (moved write es e).replace write (together write es xs) = together write (e :: es) xs := by
  obtain ⟨front, own, back, rfl, begins, ends⟩ := exists_parts xs fits.1 fits.2
  have start := start_moved write apart among begins
  have stop : (moved write es e).span.stop = (moved write es e).span.start + own.length :=
    congrArg ((moved write es e).span.start + ·) (by omega)
  rw [among.together_eq write begins ends, among.together_cons write begins ends, replace, stop, start, List.take_left,
    ← List.append_assoc, ← List.length_append, List.drop_left, List.append_assoc]
  rfl

theorem moved_of_behind (behind : ∀ d ∈ es, e.span.start ≤ d.span.start) (own : e.span.start ≤ e.span.stop) :
    moved write es e = e := by
  have start : (moved write es e).span.start = e.span.start := by
    unfold moved
    induction es with
    | nil => rfl
    | cons d es ih =>
        obtain ⟨first, rest⟩ := List.forall_mem_cons.mp behind
        rw [List.foldr_cons, if_neg (by omega)]
        exact ih rest
  have stop : (moved write es e).span.start + (e.span.stop - e.span.start) = e.span.stop := by omega
  obtain ⟨⟨first, last⟩, text⟩ := e
  exact congrArg (Edit.mk · text) (congrArg₂ Script.Span.mk start stop)

theorem together_nil (xs : List α) : together write [] xs = xs := by
  have still : spread (textsAt write []) (covers []) 0 xs = xs := spread_verbatim fun _ _ _ => ⟨rfl, rfl⟩
  rw [together, onward, still]
  exact List.append_nil xs

theorem among_of_follows (first : ∀ d ∈ es, Follows d e) {n : Nat} (fits : ∀ d ∈ e :: es, Fits n d) : Among e es := by
  obtain ⟨own, fits⟩ := List.forall_mem_cons.mp fits
  exact ⟨fun d member => ⟨Nat.ne_of_lt (first d member).1, .inl (first d member).2⟩,
    fun d member => (fits d member).1, own.1⟩

theorem foldr_apply_together (cs : List Char) (ascend : es.Pairwise fun e d => Follows d e)
    (fits : ∀ e ∈ es, Fits cs.length e) :
    es.foldr (fun e cs => e.apply cs) cs = together String.toList es cs := by
  induction es with
  | nil => exact (together_nil cs).symm
  | cons e es ih =>
      obtain ⟨first, ascend⟩ := List.pairwise_cons.mp ascend
      have among := among_of_follows first fits
      have apart : es.Pairwise Apart := ascend.imp fun follows => ⟨Nat.ne_of_lt follows.1, .inl follows.2⟩
      obtain ⟨own, fits⟩ := List.forall_mem_cons.mp fits
      have unmoved : moved String.toList es e = e :=
        moved_of_behind (fun d member => Nat.le_of_lt (first d member).1) own.1
      rw [List.foldr_cons, ih ascend fits, ← replace_moved apart among own, unmoved]
      rfl

theorem applyAll_together {cs : List Char} (apart : es.Pairwise Apart) (fits : ∀ e ∈ es, Fits cs.length e) :
    applyAll es cs = together String.toList es cs := by
  have perm : (inOrder es).reverse.Perm es := (List.reverse_perm _).trans (inOrder_perm es)
  have ascend := List.pairwise_reverse.mpr (inOrder_follows apart fits)
  have made := foldr_apply_together cs ascend fun e member => fits e (perm.mem_iff.mp member)
  rw [applyAll, ← together_perm perm ((apart_perm perm).mpr apart), ← made, List.foldr_reverse]

end Prerender.Edit
