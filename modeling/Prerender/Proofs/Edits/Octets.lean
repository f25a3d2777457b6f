import Mathlib.Data.List.Perm.Basic
import Prerender.Proofs.Edits.Together

set_option autoImplicit false

/-!
Edits of a text that is kept as its bytes. A range of bytes may be replaced where it begins and ends between
two characters. The ranges of edits that are made one after the other always do, however the earlier ones
have moved them.
-/
namespace Prerender

namespace Text

def octets (s : String) : List UInt8 := s.toUTF8.data.toList

def utf8 (cs : List Char) : List UInt8 := cs.flatMap String.utf8EncodeChar

theorem octets_eq (s : String) : octets s = utf8 s.toList := by
  obtain ⟨cs, rfl⟩ := s.exists_eq_ofList
  rw [octets, String.toUTF8_eq_toByteArray, String.toByteArray_ofList, List.utf8Encode, List.toList_data_toByteArray,
    String.toList_ofList, utf8]

theorem utf8_append (a b : List Char) : utf8 (a ++ b) = utf8 a ++ utf8 b := List.flatMap_append

theorem utf8_cons (c : Char) (cs : List Char) : utf8 (c :: cs) = String.utf8EncodeChar c ++ utf8 cs := List.flatMap_cons

theorem utf8_singleton (c : Char) : utf8 [c] = String.utf8EncodeChar c := List.flatMap_singleton _ c

theorem character_pos (c : Char) : 0 < (String.utf8EncodeChar c).length :=
  List.length_pos_iff.mpr String.utf8EncodeChar_ne_nil

def offset (cs : List Char) (i : Nat) : Nat := (utf8 (cs.take i)).length

theorem offset_append (front rest : List Char) : offset (front ++ rest) front.length = (utf8 front).length := by
  rw [offset, List.take_left]

theorem offset_lt {cs : List Char} {i j : Nat} (less : i < j) (low : j ≤ cs.length) : offset cs i < offset cs j := by
  have split := Edit.take_append_stretch cs (Nat.le_of_lt less)
  cases between : (cs.take j).drop i with
  | nil =>
      have length := congrArg List.length between
      rw [List.length_drop, List.length_take, List.length_nil] at length
      omega
  | cons c rest =>
      have octet := character_pos c
      rw [offset, offset, ← split, between, utf8_append, utf8_cons, List.length_append, List.length_append]
      omega

theorem offset_le {cs : List Char} {i j : Nat} (order : i ≤ j) (low : j ≤ cs.length) : offset cs i ≤ offset cs j := by
  rcases Nat.lt_or_eq_of_le order with less | rfl
  · exact Nat.le_of_lt (offset_lt less low)
  · exact Nat.le_refl _

theorem offset_inj {cs : List Char} {i j : Nat} (i_low : i ≤ cs.length) (j_low : j ≤ cs.length) :
    offset cs i = offset cs j ↔ i = j := by
  refine ⟨fun same => ?_, congrArg _⟩
  rcases Nat.lt_trichotomy i j with less | rfl | less
  · exact absurd same (Nat.ne_of_lt (offset_lt less j_low))
  · rfl
  · exact absurd same.symm (Nat.ne_of_lt (offset_lt less i_low))

theorem offset_le_iff {cs done rest : List Char} {c : Char} (text : cs = done ++ c :: rest) {i p : Nat}
    (low : i ≤ cs.length) (behind : (utf8 done).length ≤ p)
    (before : p < (utf8 done).length + (String.utf8EncodeChar c).length) : offset cs i ≤ p ↔ i ≤ done.length := by
  have begins : offset cs done.length = (utf8 done).length := text ▸ offset_append done (c :: rest)
  have ends : offset cs (done.length + 1) = (utf8 done).length + (String.utf8EncodeChar c).length := by
    have whole := offset_append (done ++ [c]) rest
    rwa [List.append_assoc, List.singleton_append, ← text, List.length_append, utf8_append, List.length_append,
      utf8_singleton] at whole
  have length : done.length ≤ cs.length := by rw [text, List.length_append]; omega
  constructor
  · intro reaches
    by_contra beyond
    have far := offset_le (Nat.succ_le_of_lt (Nat.lt_of_not_le beyond)) low
    rw [Nat.succ_eq_add_one] at far
    omega
  · intro order
    have near := offset_le order length
    omega

def isBoundary (bs : List UInt8) (i : Nat) : Bool := i == bs.length || bs[i]?.any fun b => b.IsUTF8FirstByte

theorem isBoundary_utf8 (front rest : List Char) : isBoundary (utf8 (front ++ rest)) (utf8 front).length = true := by
  rw [isBoundary, utf8_append]
  cases rest with
  | nil => rw [utf8, utf8, List.flatMap_nil, List.append_nil, beq_self_eq_true, Bool.true_or]
  | cons c rest =>
      have octet := character_pos c
      have first : (utf8 (c :: rest))[0]? = some (String.utf8EncodeChar c)[0] := by
        rw [utf8_cons, List.getElem?_append_left octet, List.getElem?_eq_getElem octet]
      rw [List.getElem?_append_right (Nat.le_refl _), Nat.sub_self, first, Option.any_some,
        decide_eq_true UInt8.isUTF8FirstByte_getElem_zero_utf8EncodeChar, Bool.or_true]

theorem isBoundary_offset (cs : List Char) (i : Nat) : isBoundary (utf8 cs) (offset cs i) = true := by
  have cut := isBoundary_utf8 (cs.take i) (cs.drop i)
  rwa [List.take_append_drop] at cut

end Text

namespace Edit

open Text (octets utf8 offset)

def inOctets (cs : List Char) (e : Edit) : Edit := ⟨⟨offset cs e.span.start, offset cs e.span.stop⟩, e.text⟩

variable {cs : List Char} {e : Edit} {es : List Edit}

theorem Fits.inOctets (fits : Fits cs.length e) : Fits (utf8 cs).length (e.inOctets cs) := by
  refine ⟨Text.offset_le fits.1 fits.2, ?_⟩
  have whole : offset cs cs.length = (utf8 cs).length := by rw [offset, List.take_length]
  exact whole ▸ Text.offset_le fits.2 (Nat.le_refl _)

theorem Apart.inOctets {d : Edit} (apart : Apart d e) (d_fits : Fits cs.length d) (e_fits : Fits cs.length e) :
    Apart (d.inOctets cs) (e.inOctets cs) := by
  exact ⟨fun same => apart.1 ((Text.offset_inj d_fits.low e_fits.low).mp same),
    apart.2.imp (Text.offset_le · e_fits.low) (Text.offset_le · d_fits.low)⟩

theorem Among.inOctets (among : Among e es) (fits : ∀ d ∈ e :: es, Fits cs.length d) :
    Among (e.inOctets cs) (es.map (inOctets cs)) := by
  obtain ⟨own, fits⟩ := List.forall_mem_cons.mp fits
  refine ⟨List.forall_mem_map.mpr fun d member => ?_, List.forall_mem_map.mpr fun d member => ?_, own.inOctets.1⟩
  · exact (among.apart d member).inOctets own (fits d member)
  · exact (fits d member).inOctets.1

theorem textsAt_inOctets (fits : ∀ e ∈ es, Fits cs.length e) {i : Nat} (low : i ≤ cs.length) :
    textsAt octets (es.map (inOctets cs)) (offset cs i) = utf8 (textsAt String.toList es i) := by
  have same : es.filter ((fun e => e.span.start == offset cs i) ∘ inOctets cs) =
      es.filter fun e => e.span.start == i := by
    refine List.filter_congr fun e member => ?_
    rw [Function.comp_apply, Bool.beq_eq_decide_eq, Bool.beq_eq_decide_eq]
    exact decide_eq_decide.mpr (Text.offset_inj (fits e member).low low)
  rw [textsAt, textsAt, List.filter_map, same, List.flatMap_map, utf8, List.flatMap_assoc]
  exact List.flatMap_congr fun e _ => Text.octets_eq e.text

section
variable {done rest : List Char} {c : Char}

theorem covers_inOctets (fits : ∀ e ∈ es, Fits cs.length e) (text : cs = done ++ c :: rest) {p : Nat}
    (behind : (utf8 done).length ≤ p) (before : p < (utf8 done).length + (String.utf8EncodeChar c).length) :
    covers (es.map (inOctets cs)) p = covers es done.length := by
  rw [covers, covers, List.any_map, Bool.eq_iff_iff, List.any_eq_true, List.any_eq_true]
  refine exists_congr fun e => and_congr_right fun member => ?_
  have start := Text.offset_le_iff text (fits e member).low behind before
  have stop := Text.offset_le_iff text (fits e member).2 behind before
  simp only [Function.comp_apply, inOctets, Bool.and_eq_true, decide_eq_true_eq, start, ← Nat.not_le, stop]

theorem textsAt_between (fits : ∀ e ∈ es, Fits cs.length e) (text : cs = done ++ c :: rest) {p : Nat}
    (behind : (utf8 done).length < p) (before : p < (utf8 done).length + (String.utf8EncodeChar c).length) :
    textsAt octets (es.map (inOctets cs)) p = [] := by
  refine textsAt_nil (List.forall_mem_map.mpr fun e member => ?_)
  show offset cs e.span.start ≠ p
  intro same
  have at_front : e.span.start ≤ done.length :=
    (Text.offset_le_iff text (fits e member).low (Nat.le_of_lt behind) before).mp (Nat.le_of_eq same)
  have front : offset cs e.span.start ≤ offset cs done.length :=
    Text.offset_le at_front (by rw [text, List.length_append]; omega)
  have begins : offset cs done.length = (utf8 done).length := text ▸ Text.offset_append done (c :: rest)
  omega

theorem spread_inOctets (fits : ∀ e ∈ es, Fits cs.length e) (done middle rest : List Char)
    (text : cs = done ++ (middle ++ rest)) :
    spread (textsAt octets (es.map (inOctets cs))) (covers (es.map (inOctets cs))) (utf8 done).length (utf8 middle) =
      utf8 (spread (textsAt String.toList es) (covers es) done.length middle) := by
  induction middle generalizing done with
  | nil => rfl
  | cons c middle ih =>
      have further := ih (done ++ [c]) (by rw [text, List.append_assoc]; rfl)
      have begins : offset cs done.length = (utf8 done).length := text ▸ Text.offset_append done _
      have put := textsAt_inOctets fits (i := done.length) (by rw [text, List.length_append]; omega)
      have text : cs = done ++ c :: (middle ++ rest) := text
      have cover (p : Nat) := covers_inOctets fits text (p := p)
      have octet := Text.character_pos c
      have block : spread (textsAt octets (es.map (inOctets cs))) (covers (es.map (inOctets cs))) (utf8 done).length
          (String.utf8EncodeChar c) = _ :=
        spread_block String.utf8EncodeChar_ne_nil (fun p behind before => textsAt_between fits text behind before)
          fun p behind before => (cover p behind before).trans (cover _ (Nat.le_refl _) (by omega)).symm
      rw [Text.utf8_append, List.length_append, List.length_append, Text.utf8_singleton,
        List.length_singleton] at further
      rw [Text.utf8_cons, spread_append, block, cover _ (Nat.le_refl _) (by omega), ← begins, put, begins, further,
        spread, Text.utf8_append, Text.utf8_append, List.append_assoc]
      congr 2
      split
      · rfl
      · exact (Text.utf8_singleton c).symm

end

theorem together_inOctets (fits : ∀ e ∈ es, Fits cs.length e) :
    together octets (es.map (inOctets cs)) (utf8 cs) = utf8 (together String.toList es cs) := by
  have whole := spread_inOctets fits [] cs [] (List.append_nil cs).symm
  have ends : offset cs cs.length = 0 + (utf8 cs).length := by rw [offset, List.take_length, Nat.zero_add]
  have put := textsAt_inOctets fits (Nat.le_refl cs.length)
  rw [ends] at put
  rw [together, together, onward, onward, put, Text.utf8_append, Nat.zero_add]
  exact congrArg (· ++ _) whole

-- The bytes with a range of them replaced; none if one end of the range is within a character.
def replaceRange? (e : Edit) (bs : List UInt8) : Option (List UInt8) :=
  if e.span.start ≤ e.span.stop ∧ Text.isBoundary bs e.span.start = true ∧ Text.isBoundary bs e.span.stop = true then
    some (e.replace octets bs)
  else none

-- Edits made one after the other, each where those made before it have moved it: the ones in `made`, and the ones
-- in front of it in the list.
def makeEach? (made : List Edit) : List Edit → List UInt8 → Option (List UInt8)
  | [], bs => some bs
  | e :: es, bs => ((moved octets made e).replaceRange? bs).bind (makeEach? (e :: made) es)

theorem pairwise_inOctets (apart : es.Pairwise Apart) (fits : ∀ e ∈ es, Fits cs.length e) :
    (es.map (inOctets cs)).Pairwise Apart :=
  List.pairwise_map.mpr (apart.imp_of_mem fun d_in e_in parted => parted.inOctets (fits _ d_in) (fits _ e_in))

theorem replaceRange?_between {before middle : List Char} (after : List Char)
    (start : e.span.start = (utf8 before).length) (stop : e.span.stop = (utf8 (before ++ middle)).length) :
    e.replaceRange? (utf8 (before ++ (middle ++ after))) =
      some (e.replace octets (utf8 (before ++ (middle ++ after)))) := by
  refine if_pos ⟨?_, start ▸ Text.isBoundary_utf8 before _, ?_⟩
  · rw [start, stop, Text.utf8_append, List.length_append]
    omega
  · rw [stop, ← List.append_assoc]
    exact Text.isBoundary_utf8 (before ++ middle) after

theorem replaceRange?_moved (apart : es.Pairwise Apart) (among : Among e es) (fits : ∀ d ∈ e :: es, Fits cs.length d) :
    (moved octets (es.map (inOctets cs)) (e.inOctets cs)).replaceRange?
        (together octets (es.map (inOctets cs)) (utf8 cs)) =
      some (together octets ((e :: es).map (inOctets cs)) (utf8 cs)) := by
  obtain ⟨own, others⟩ := List.forall_mem_cons.mp fits
  obtain ⟨front, middle, back, text, begins, ends⟩ := exists_parts cs own.1 own.2
  have start_offset : (e.inOctets cs).span.start = (utf8 front).length := by
    rw [inOctets, ← begins, text, Text.offset_append]
  have stop_offset : (e.inOctets cs).span.stop = (utf8 front).length + (utf8 middle).length := by
    rw [inOctets, ← ends, text, ← List.append_assoc, ← List.length_append, Text.offset_append, Text.utf8_append,
      List.length_append]
  obtain ⟨before, before_eq⟩ : ∃ before, before = spread (textsAt String.toList es) (covers es) 0 front := ⟨_, rfl⟩
  have text_so_far : together octets (es.map (inOctets cs)) (utf8 cs) = utf8 (before ++ (middle ++ onward _ _ _ back)) :=
    (together_inOctets others).trans (congrArg utf8 (by rw [text, among.together_eq _ begins ends, before_eq]))
  have start : (moved octets (es.map (inOctets cs)) (e.inOctets cs)).span.start = (utf8 before).length := by
    rw [start_moved octets (x := utf8 front) (pairwise_inOctets apart others) (among.inOctets fits) start_offset.symm,
      before_eq]
    exact congrArg List.length (spread_inOctets others [] front (middle ++ back) text)
  have stop : (moved octets (es.map (inOctets cs)) (e.inOctets cs)).span.stop = (utf8 (before ++ middle)).length := by
    rw [Text.utf8_append, List.length_append, ← start]
    refine congrArg (_ + ·) ?_
    omega
  rw [text_so_far, replaceRange?_between _ start stop, ← text_so_far,
    replace_moved (pairwise_inOctets apart others) (among.inOctets fits) own.inOctets]
  rfl

theorem makeEach?_together (cs : List Char) (made : List Edit) (apart : (es.reverse ++ made).Pairwise Apart)
    (fits : ∀ e ∈ es.reverse ++ made, Fits cs.length e) :
    makeEach? (made.map (inOctets cs)) (es.map (inOctets cs)) (together octets (made.map (inOctets cs)) (utf8 cs)) =
      some (utf8 (together String.toList (es.reverse ++ made) cs)) := by
  induction es generalizing made with
  | nil => exact congrArg some (together_inOctets fits)
  | cons e es ih =>
      rw [List.reverse_cons, List.append_assoc, List.singleton_append] at apart fits ⊢
      obtain ⟨first, rest⟩ := List.pairwise_cons.mp (List.pairwise_append.mp apart).2.1
      have these : ∀ d ∈ e :: made, Fits cs.length d := fun d member => fits d (List.mem_append_right _ member)
      have among : Among e made :=
        ⟨first, fun d member => (these d (List.mem_cons_of_mem e member)).1, (these e List.mem_cons_self).1⟩
      rw [List.map_cons, makeEach?, replaceRange?_moved rest among these]
      exact ih (e :: made) apart fits

theorem makeEach?_perm {ds : List Edit} (perm : ds.Perm (es.map (inOctets cs))) (apart : es.Pairwise Apart)
    (fits : ∀ e ∈ es, Fits cs.length e) :
    makeEach? [] ds (utf8 cs) = some (utf8 (together String.toList es cs)) := by
  obtain ⟨listed, same, reordered⟩ := List.perm_comp_forall₂ (r := fun d e => d = inOctets cs e) perm
    (List.forall₂_map_left_iff.mpr (List.forall₂_same.mpr fun _ _ => rfl))
  obtain rfl : ds = listed.map (inOctets cs) :=
    List.forall₂_eq_eq_eq ▸ (List.forall₂_map_right_iff (R := Eq)).mpr same
  have order : (listed.reverse ++ []).Perm es := by
    rw [List.append_nil]
    exact (List.reverse_perm listed).trans reordered
  have parted := (apart_perm order).mpr apart
  have made := makeEach?_together cs [] parted fun e member => fits e (order.mem_iff.mp member)
  rwa [List.map_nil, together_nil, together_perm order parted] at made

theorem makeEach?_follows (made : List Edit) {ds : List Edit} (follow : ds.Pairwise Follows)
    (behind : ∀ e ∈ ds, e.span.start ≤ e.span.stop ∧ ∀ d ∈ made, e.span.start ≤ d.span.start) (bs : List UInt8) :
    makeEach? made ds bs = ds.foldlM (fun bs e => e.replaceRange? bs) bs := by
  induction ds generalizing made bs with
  | nil => rfl
  | cons e ds ih =>
      obtain ⟨later, follow⟩ := List.pairwise_cons.mp follow
      obtain ⟨⟨own, first⟩, behind⟩ := List.forall_mem_cons.mp behind
      rw [makeEach?, moved_of_behind first own, List.foldlM_cons]
      refine congrArg _ (funext fun bs => ih (e :: made) follow (fun d member => ⟨(behind d member).1, ?_⟩) bs)
      exact List.forall_mem_cons.mpr ⟨Nat.le_of_lt (later d member).1, (behind d member).2⟩

theorem foldlM_replaceRange? (apart : es.Pairwise Apart) (fits : ∀ e ∈ es, Fits cs.length e) :
    (inOrder (es.map (inOctets cs))).foldlM (fun bs e => e.replaceRange? bs) (utf8 cs) =
      some (utf8 (applyAll es cs)) := by
  have octets_fit : ∀ d ∈ es.map (inOctets cs), Fits (utf8 cs).length d :=
    List.forall_mem_map.mpr fun e member => (fits e member).inOctets
  have follow := inOrder_follows (pairwise_inOctets apart fits) octets_fit
  rw [applyAll_together apart fits, ← makeEach?_perm (inOrder_perm _) apart fits, makeEach?_follows [] follow]
  exact fun d member => ⟨(octets_fit d ((inOrder_perm _).mem_iff.mp member)).1, nofun⟩

-- What edits of ranges of bytes have to do with the text that they make.
structure Exact (source : String) (edits : List Edit) (code : String) : Prop where
  bounded : ∀ e ∈ edits, e.span.start ≤ e.span.stop ∧ Text.isBoundary (octets source) e.span.start = true ∧
    Text.isBoundary (octets source) e.span.stop = true
  apart : edits.Pairwise Apart
  clear : ∀ d ∈ edits, ∀ e ∈ edits, d ≠ e → e.span.start = e.span.stop →
    e.span.start ≠ d.span.start ∧ e.span.start ≠ d.span.stop
  at_once : octets code = together octets edits (octets source)
  kept : (spread (fun _ => []) (covers edits) 0 (octets source)).Sublist (octets code)
  from_last : (inOrder edits).foldlM (fun bs e => e.replaceRange? bs) (octets source) = some (octets code)
  any_order : ∀ ds, ds.Perm edits → makeEach? [] ds (octets source) = some (octets code)

theorem exact_inOctets {source : String} {es : List Edit} (apart : es.Pairwise Apart)
    (fits : ∀ e ∈ es, Fits source.toList.length e)
    (clear : ∀ d ∈ es, ∀ e ∈ es, d ≠ e → e.span.start = e.span.stop →
      e.span.start ≠ d.span.start ∧ e.span.start ≠ d.span.stop) :
    Exact source (es.map (inOctets source.toList)) (String.ofList (applyAll es source.toList)) := by
  have made : octets (String.ofList (applyAll es source.toList)) =
      Text.utf8 (together String.toList es source.toList) := by
    rw [Text.octets_eq, String.toList_ofList, applyAll_together apart fits]
  have at_once : octets (String.ofList (applyAll es source.toList)) =
      together octets (es.map (inOctets source.toList)) (octets source) := by
    rw [made, Text.octets_eq source, together_inOctets fits]
  refine ⟨?_, pairwise_inOctets apart fits, ?_, at_once, ?_, ?_, fun ds perm => ?_⟩
  · refine List.forall_mem_map.mpr fun e member => ⟨(fits e member).inOctets.1, ?_⟩
    rw [Text.octets_eq]
    exact ⟨Text.isBoundary_offset _ _, Text.isBoundary_offset _ _⟩
  · refine List.forall_mem_map.mpr fun d d_in => List.forall_mem_map.mpr fun e e_in different empty => ?_
    have place : e.span.start = e.span.stop := (Text.offset_inj (fits e e_in).low (fits e e_in).2).mp empty
    obtain ⟨starts, stops⟩ := clear d d_in e e_in (fun same => different (congrArg _ same)) place
    exact ⟨fun same => starts ((Text.offset_inj (fits e e_in).low (fits d d_in).low).mp same),
      fun same => stops ((Text.offset_inj (fits e e_in).low (fits d d_in).2).mp same)⟩
  · rw [at_once]
    exact spread_sublist.trans (List.sublist_append_left _ _)
  · rw [Text.octets_eq source, foldlM_replaceRange? apart fits, Text.octets_eq, String.toList_ofList]
  · rw [made, Text.octets_eq source]
    exact makeEach?_perm perm apart fits

end Edit

end Prerender
