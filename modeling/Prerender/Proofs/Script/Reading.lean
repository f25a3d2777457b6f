import Prerender.Proofs.Rewriting
import Prerender.Proofs.Script.Token
import Prerender.Script.Grammar.Module

set_option autoImplicit false

/-!
What a rule of the grammar reads. A reading goes on from state to state stands one text; the nodes that it
has come to lie between the token where it began and the end of the last token behind it, in the order in
which they were read. Rules that do that are closed under all the ways in which rules are put together,
so that a law about a rule is proved along the rule.
-/
namespace Prerender.Script

structure Source where
  text : List Char
  dialect : Dialect

-- A stretch that is read of a source. Statements are read loosely: an import may end where they do.
structure Passage extends Source where
  loose : Bool

instance : Coe Source Passage := ⟨fun src => ⟨src, false⟩⟩

abbrev Source.loosely (src : Source) : Passage := ⟨src, true⟩

variable {src : Passage}

structure State.Stands (src : Passage) (s : State) : Prop where
  token : s.token.Of src.text
  known : s.token.lexeme ≠ .unknown
  behind : s.lastStop ≤ s.token.start
  dialect : s.dialect = src.dialect

theorem State.Stands.as {source : Source} {loose other : Bool} {s : State} (stands : s.Stands ⟨source, loose⟩) :
    s.Stands ⟨source, other⟩ := ⟨stands.token, stands.known, stands.behind, stands.dialect⟩

theorem State.Stands.solid {s : State} (stands : s.Stands src) (more : s.token.lexeme ≠ .finish) :
    s.token.start < s.token.stop := stands.token.solid stands.known more

theorem State.Stands.facing {s : State} (stands : s.Stands src) (more : s.token.lexeme ≠ .finish) :
    s.token.start < src.text.length := Nat.lt_of_lt_of_le (stands.solid more) stands.token.fits

-- The kinds of nodes that are known to end behind each import in one of their parts.
def Kind.isClosed : Kind → Bool
  | .object _ | .instantiation => true
  | _ => false

namespace Node

def Snug (n : Node) : Prop := ∀ m ∈ n.descendants, m.isImport = true → m.span.stop < n.span.stop

structure Formed (src : Source) (n : Node) : Prop where
  nested : ∀ part ∈ n.parts, Encloses n part
  ordered : n.parts.Pairwise (Precedes n)
  word : n.isName = true → n.parts = []
  braced : n.isObject = true → n.span.start + 1 < n.span.stop ∧ ∀ part ∈ n.parts,
    part.isLeftOut = false ∧ n.span.start < part.span.start ∧ part.span.stop < n.span.stop
  closed : n.kind.isClosed = true → ∀ part ∈ n.parts, part.Snug
  clause : n.isImport = true → ∀ m ∈ descendantsOf n.parts, m.kind.isClausePart = true
  imported : n.isImport = true → ∃ s s', s.Stands src ∧ s.token.start = n.span.start ∧
    ModuleSyntax.importDeclaration s = some (n, s')

def Sound (src : Source) (n : Node) : Prop := ∀ m ∈ n.descendants, m.Formed src

theorem Sound.order {src : Source} {n : Node} (sound : n.Sound src) : n.InSourceOrder :=
  ⟨fun m member => (sound m member).nested, fun m member => (sound m member).ordered,
    fun m member => (sound m member).word⟩

def Parted (a b : Node) : Prop := a.isLeftOut = true ∨ b.isLeftOut = true ∨ a.span.stop ≤ b.span.start

end Node

structure Row (src : Passage) (low : Nat) (ns : List Node) (high : Nat) : Prop where
  within : ∀ n ∈ ns, n.isLeftOut = true ∨
    (n.span.start < n.span.stop ∧ low ≤ n.span.start ∧ n.span.stop ≤ high)
  ordered : ns.Pairwise Node.Parted
  sound : ∀ n ∈ ns, n.Sound src.toSource
  snug : src.loose = false → ∀ n ∈ ns, n.Snug

namespace Row

variable {low high mid : Nat} {ns ms : List Node}

theorem nil (src : Passage) (low high : Nat) : Row src low [] high := ⟨nofun, .nil, nofun, fun _ => nofun⟩

theorem loosen {source : Source} (row : Row source low ns high) : Row source.loosely low ns high :=
  ⟨row.within, row.ordered, row.sound, nofun⟩

theorem widen {low' high' : Nat} (row : Row src low ns high) (lower : low' ≤ low) (higher : high ≤ high') :
    Row src low' ns high' :=
  ⟨fun n member => (row.within n member).imp_right fun ⟨stretch, left, right⟩ =>
    ⟨stretch, lower.trans left, right.trans higher⟩, row.ordered, row.sound, row.snug⟩

theorem append {left right : Nat} (first : Row src low ns left) (second : Row src right ms high)
    (parted : left ≤ right) (lower : low ≤ right) (higher : left ≤ high) : Row src low (ns ++ ms) high := by
  have first' := first.widen (Nat.le_refl low) higher
  have second' := second.widen lower (Nat.le_refl high)
  refine ⟨?_, List.pairwise_append.mpr ⟨first.ordered, second.ordered, fun a a_in b b_in => ?_⟩, ?_, fun strict => ?_⟩
  · intro n member
    exact (List.mem_append.mp member).elim (first'.within n) (second'.within n)
  · rcases first.within a a_in with out | ⟨-, -, a_stop⟩
    · exact .inl out
    · rcases second.within b b_in with out | ⟨-, b_start, -⟩
      · exact .inr (.inl out)
      · exact .inr (.inr (a_stop.trans (parted.trans b_start)))
  · intro n member
    exact (List.mem_append.mp member).elim (first.sound n) (second.sound n)
  · intro n member
    exact (List.mem_append.mp member).elim (first.snug strict n) (second.snug strict n)

theorem from_first {n : Node} (row : Row src low (n :: ns) high) (written : n.isLeftOut = false) :
    Row src n.span.start (n :: ns) high ∧ low ≤ n.span.start ∧ n.span.start < high := by
  have first := (row.within n List.mem_cons_self).resolve_left (by simp [written])
  refine ⟨⟨fun m member => ?_, row.ordered, row.sound, row.snug⟩, first.2.1, Nat.lt_of_lt_of_le first.1 first.2.2⟩
  rcases List.mem_cons.mp member with rfl | later
  · exact .inr ⟨first.1, Nat.le_refl _, first.2.2⟩
  · rcases (List.pairwise_cons.mp row.ordered).1 m later with out | out | parted
    · simp [written] at out
    · exact .inl out
    · refine (row.within m member).imp_right fun ⟨stretch, _, right⟩ => ?_
      exact ⟨stretch, first.1.le.trans parted, right⟩

theorem sublist (row : Row src low ns high) (some_of : ms.Sublist ns) : Row src low ms high :=
  ⟨fun n member => row.within n (some_of.subset member), row.ordered.sublist some_of,
    fun n member => row.sound n (some_of.subset member), fun strict n member => row.snug strict n (some_of.subset member)⟩

theorem opened {n : Node} (row : Row src low [n] high) (written : n.isLeftOut = false)
    (closed : n.kind.isClosed = true) : Row src low n.parts high := by
  have other : n.kind ≠ .property := fun is => by simp [is, Kind.isClosed] at closed
  obtain ⟨-, left, right⟩ := (row.within n List.mem_cons_self).resolve_left (by simp [written])
  have sound := row.sound n List.mem_cons_self
  have below : ∀ part ∈ n.parts, ∀ m ∈ part.descendants, m ∈ n.descendants := by
    intro part part_in m member
    cases n with
    | mk kind span parts =>
        rw [Node.descendants]
        exact List.mem_cons_of_mem _ ((Node.mem_descendantsOf parts m).mpr ⟨part, part_in, member⟩)
  have formed := sound n ((Node.mem_descendants n n).mpr ⟨[], rfl⟩)
  refine ⟨fun part part_in => ?_, formed.ordered.imp fun parted => ?_, fun part part_in m member => ?_,
    fun _ => formed.closed closed⟩
  · exact (formed.nested part part_in).imp_right fun ⟨stretch, first, last⟩ =>
      ⟨stretch, left.trans first, last.trans right⟩
  · exact parted.imp_right fun parted => parted.imp_right fun parted =>
      parted.resolve_left fun shared => other shared.1
  · exact sound m (below part part_in m member)

end Row

def Kind.isLeaf : Kind → Bool
  | .object _ | .importDeclaration _ => false
  | _ => true

def Kind.isPlain : Kind → Bool
  | .object _ | .instantiation | .importDeclaration _ | .reference _ | .name _ | .jsxName _ => false
  | _ => true

theorem Kind.plain_cases {kind : Kind} (plain : kind.isPlain = true) (span : Span) (parts : List Node) :
    (Node.mk kind span parts).isName = false ∧ (Node.mk kind span parts).isObject = false ∧
      kind.isClosed = false ∧ (Node.mk kind span parts).isImport = false := by
  cases kind <;> first | exact ⟨rfl, rfl, rfl, rfl⟩ | exact absurd plain Bool.false_ne_true

theorem Kind.leaf_cases {kind : Kind} (leaf : kind.isLeaf = true) (span : Span) (parts : List Node) :
    (Node.mk kind span parts).isObject = false ∧ (Node.mk kind span parts).isImport = false := by
  cases kind <;> first | exact ⟨rfl, rfl⟩ | exact absurd leaf Bool.false_ne_true

theorem Node.written_of_plain {n : Node} (plain : n.isPlainName = true) : n.isLeftOut = false := by
  unfold isPlainName at plain
  split at plain
  · rfl
  · cases plain

theorem Node.written_of_kind {n : Node} {kind : Kind} (is : n.kind = kind) (other : kind ≠ .absent) :
    n.isLeftOut = false := by
  unfold isLeftOut
  split
  · exact absurd is.symm other
  · rfl

theorem Node.sound_of_parts {source : Source} {kind : Kind} {span : Span} {parts : List Node}
    (formed : (Node.mk kind span parts).Formed source) (sound : ∀ part ∈ parts, part.Sound source) :
    (Node.mk kind span parts).Sound source := by
  intro m member
  rw [descendants] at member
  rcases List.mem_cons.mp member with rfl | member
  · exact formed
  · obtain ⟨part, part_in, below⟩ := (mem_descendantsOf parts m).mp member
    exact sound part part_in m below

variable {source : Source}

theorem Node.formed_of_plain {kind : Kind} (plain : kind.isPlain = true) {span : Span} {parts : List Node}
    (nested : ∀ part ∈ parts, Encloses (.mk kind span parts) part)
    (ordered : parts.Pairwise (Precedes (.mk kind span parts))) : (Node.mk kind span parts).Formed source := by
  obtain ⟨name, object, closed, import_⟩ := kind.plain_cases plain span parts
  exact ⟨nested, ordered, by simp [name], by simp [object], by simp [Node.kind, closed], by simp [import_],
    by simp [import_]⟩

theorem Node.sound_node {kind : Kind} (plain : kind.isPlain = true) {low high : Nat} {parts : List Node}
    (row : Row src low parts high) : (Node.mk kind ⟨low, high⟩ parts).Sound src.toSource :=
  sound_of_parts (formed_of_plain plain row.within
    (row.ordered.imp fun parted => parted.imp_right fun parted => parted.imp_right .inr)) row.sound

theorem Node.sound_leaf {kind : Kind} (leaf : kind.isLeaf = true) (span : Span) :
    (Node.mk kind span []).Sound source := by
  obtain ⟨object, import_⟩ := kind.leaf_cases leaf span []
  exact sound_of_parts ⟨nofun, .nil, fun _ => rfl, by simp [object], fun _ => nofun, by simp [import_], by simp [import_]⟩ nofun

theorem Node.isImport_below_leftOut {n m : Node} (out : n.isLeftOut = true) (below : m ∈ n.descendants) :
    m.isImport = false := by
  unfold isLeftOut at out
  split at out
  · obtain rfl := List.mem_singleton.mp below
    rfl
  · cases out

theorem Node.snug_of_parts {kind : Kind} {span : Span} {parts : List Node} (other : (Node.mk kind span parts).isImport = false)
    (within : ∀ part ∈ parts, part.isLeftOut = true ∨ part.span.stop ≤ span.stop) (snug : ∀ part ∈ parts, part.Snug) :
    (Node.mk kind span parts).Snug := by
  intro m member is
  rw [descendants] at member
  rcases List.mem_cons.mp member with rfl | member
  · simp [other] at is
  · obtain ⟨part, part_in, below⟩ := (mem_descendantsOf parts m).mp member
    have before := snug part part_in m below is
    rcases within part part_in with out | within
    · rw [isImport_below_leftOut out below] at is
      cases is
    · exact Nat.lt_of_lt_of_le before within

theorem Node.snug_leaf {kind : Kind} (leaf : kind.isLeaf = true) (span : Span) : (Node.mk kind span []).Snug :=
  snug_of_parts (kind.leaf_cases leaf span []).2 nofun nofun

theorem Node.snug_node {kind : Kind} (plain : kind.isPlain = true) {low high : Nat} {parts : List Node}
    (row : Row src low parts high) (strict : src.loose = false) : (Node.mk kind ⟨low, high⟩ parts).Snug :=
  snug_of_parts (kind.plain_cases plain _ _).2.2.2 (fun part part_in => (row.within part part_in).imp_right fun inside => inside.2.2)
    (row.snug strict)

theorem Row.single {low high : Nat} {n : Node} (within : n.isLeftOut = true ∨
    (n.span.start < n.span.stop ∧ low ≤ n.span.start ∧ n.span.stop ≤ high)) (sound : n.Sound src.toSource)
    (snug : src.loose = false → n.Snug) : Row src low [n] high :=
  ⟨List.forall_mem_singleton.mpr within, List.pairwise_singleton _ _, List.forall_mem_singleton.mpr sound,
    fun strict => List.forall_mem_singleton.mpr (snug strict)⟩

theorem Row.leaf {kind : Kind} (leaf : kind.isLeaf = true) {low high : Nat} {span : Span}
    (within : (Node.mk kind span []).isLeftOut = true ∨ (span.start < span.stop ∧ low ≤ span.start ∧ span.stop ≤ high)) :
    Row src low [.mk kind span []] high := .single within (Node.sound_leaf leaf span) fun _ => Node.snug_leaf leaf span

theorem Row.stops {low high : Nat} {ns : List Node} (row : Row src low ns high) {m : Node}
    (below : m ∈ Node.descendantsOf ns) (is : m.isImport = true) : m.span.stop ≤ high := by
  obtain ⟨n, member, below⟩ := (Node.mem_descendantsOf ns m).mp below
  rcases row.within n member with out | ⟨-, -, stop⟩
  · rw [Node.isImport_below_leftOut out below] at is
    cases is
  · obtain ⟨q, found⟩ := (Node.mem_descendants n m).mp below
    have written : m.isLeftOut = false := by
      unfold Node.isImport at is
      split at is
      next kind => exact Node.written_of_kind kind nofun
      next => cases is
    exact ((row.sound n member).order.inside found written).2.trans stop

theorem Row.cons_leftOut {low high : Nat} {n : Node} {ns : List Node} (row : Row src low ns high)
    (out : n.isLeftOut = true) : Row src low (n :: ns) high := by
  have first : Row src low [n] high := by
    unfold Node.isLeftOut at out
    split at out
    · exact .leaf rfl (.inl rfl)
    · cases out
  exact ⟨List.forall_mem_cons.mpr ⟨.inl out, row.within⟩, .cons (fun _ _ => .inl out) row.ordered,
    List.forall_mem_cons.mpr ⟨first.sound n List.mem_cons_self, row.sound⟩,
    fun strict => List.forall_mem_cons.mpr ⟨first.snug strict n List.mem_cons_self, row.snug strict⟩⟩

-- How far a reading that began in `s₀` has come: `used` says that it has passed a token, and `ns` are the
-- nodes it has read.
structure Reading (src : Passage) (s₀ : State) (used : Bool) (ns : List Node) (s : State) : Prop where
  stands : s.Stands src
  onward : s₀.token.start ≤ s.token.start
  passed : s₀.lastStop ≤ s.lastStop
  row : Row src s₀.token.start ns s.lastStop
  used : used = true → s₀.token.start < s.lastStop

namespace Reading

variable {s₀ s₁ s₂ : State} {used more : Bool} {ns ms : List Node}

theorem begin {s : State} (stands : s.Stands src) : Reading src s false [] s :=
  ⟨stands, Nat.le_refl _, Nat.le_refl _, .nil src _ _, nofun⟩

theorem trans (first : Reading src s₀ used ns s₁) (second : Reading src s₁ more ms s₂) :
    Reading src s₀ (used || more) (ns ++ ms) s₂ := by
  refine ⟨second.stands, first.onward.trans second.onward, first.passed.trans second.passed,
    first.row.append second.row first.stands.behind first.onward second.passed, fun some_used => ?_⟩
  rcases Bool.or_eq_true_iff.mp some_used with here | there
  · exact Nat.lt_of_lt_of_le (first.used here) second.passed
  · exact Nat.lt_of_le_of_lt first.onward (second.used there)

theorem sublist (reading : Reading src s₀ used ns s₁) (some_of : ms.Sublist ns) : Reading src s₀ used ms s₁ :=
  { reading with row := reading.row.sublist some_of }

theorem less (reading : Reading src s₀ true ns s₁) (used : Bool) : Reading src s₀ used ns s₁ :=
  { reading with used := fun _ => reading.used rfl }

theorem loosen (reading : Reading source s₀ used ns s₁) : Reading source.loosely s₀ used ns s₁ :=
  ⟨reading.stands.as, reading.onward, reading.passed, reading.row.loosen, reading.used⟩

theorem forget (reading : Reading src s₀ used ns s₁) : Reading src s₀ false ns s₁ :=
  { reading with used := nofun }

-- A name may be read as what is to be named and as what it is, and so be part of what is read next.
theorem again (reading : Reading src s₀ used ns s₁) : Reading src { s₀ with lastStop := s₁.lastStop } used ns s₁ :=
  ⟨reading.stands, reading.onward, Nat.le_refl _, reading.row, reading.used⟩

theorem as_leaf (kind : Kind) {n : Node} (reading : Reading src s₀ used [n] s₁) (leaf : kind.isLeaf = true)
    (solid : n.isLeftOut = false) : Reading src s₀ used [.mk kind n.span []] s₁ := by
  have within := (reading.row.within n List.mem_cons_self).resolve_left (by simp [solid])
  exact { reading with row := .leaf leaf (.inr within) }

theorem wrap (kind : Kind) {n : Node} (reading : Reading src s₀ used (n :: ns) s₁) (plain : kind.isPlain = true)
    (written : n.isLeftOut = false) : Reading src s₀ used (.mk kind n.span [n] :: ns) s₁ := by
  obtain ⟨within, ordered, sound, snug⟩ := reading.row
  obtain ⟨first, within⟩ := List.forall_mem_cons.mp within
  obtain ⟨parted, ordered⟩ := List.pairwise_cons.mp ordered
  obtain ⟨here, sound⟩ := List.forall_mem_cons.mp sound
  have first := first.resolve_left (by simp [written])
  have inner : Row src n.span.start [n] n.span.stop :=
    .single (.inr ⟨first.1, Nat.le_refl _, Nat.le_refl _⟩) here fun strict => snug strict n List.mem_cons_self
  refine { reading with row := ⟨List.forall_mem_cons.mpr ⟨.inr first, within⟩, .cons (fun m later => ?_) ordered,
    List.forall_mem_cons.mpr ⟨Node.sound_node plain inner, sound⟩, fun strict => List.forall_mem_cons.mpr
      ⟨Node.snug_node plain inner strict, fun m later => snug strict m (List.mem_cons_of_mem n later)⟩⟩ }
  exact .inr ((parted m later).resolve_left (by simp [written]))

theorem cons_leftOut {n : Node} (reading : Reading src s₀ used ns s₁) (out : n.isLeftOut = true) :
    Reading src s₀ used (n :: ns) s₁ := { reading with row := reading.row.cons_leftOut out }

end Reading

-- What `p` makes of a state, if it does not fail.
def Leads {α : Type} (pre : State → Prop) (p : Parse α) (post : α → State → Prop) : Prop :=
  ∀ s a s', pre s → p s = some (a, s') → post a s'

def Gives {α : Type} (p : Parse α) (holds : α → Prop) : Prop := Leads (fun _ => True) p fun a _ => holds a

def Looks {α : Type} (p : Parse α) : Prop := ∀ s, Leads (· = s) p fun _ => (· = s)

structure State.Level (s s' : State) : Prop where
  token : s'.token = s.token
  last : s'.lastStop = s.lastStop
  dialect : s'.dialect = s.dialect

theorem State.Level.refl (s : State) : s.Level s := ⟨rfl, rfl, rfl⟩

theorem Parse.eq_of_bind {α β : Type} {p : Parse α} {f : α → Parse β} {s s' : State} {b : β}
    (run : (p >>= f) s = some (b, s')) : ∃ a t, p s = some (a, t) ∧ f a t = some (b, s') := by
  obtain ⟨⟨a, t⟩, first, rest⟩ := Option.bind_eq_some_iff.mp run
  exact ⟨a, t, first, rest⟩

namespace Leads

variable {α β : Type} {pre pre' : State → Prop} {p : Parse α} {f : α → Parse β} {a : α}
  {mid : α → State → Prop} {post : β → State → Prop} {end_ : α → State → Prop}

theorem bind (first : Leads pre p mid) (then_ : ∀ a, Leads (mid a) (f a) post) : Leads pre (p >>= f) post := by
  intro s b s' before run
  obtain ⟨a, t, ran, rest⟩ := Parse.eq_of_bind run
  exact then_ a t b s' (first s a t before ran) rest

theorem pure (now : ∀ s, pre s → end_ a s) : Leads pre (pure a) end_ := by
  rintro s b s' before run
  cases run
  exact now s before

theorem failure : Leads pre (failure : Parse α) end_ := fun _ _ _ _ run => nomatch run

theorem stop : Leads pre ((Alternative.failure : Parse α) >>= f) post := fun _ _ _ _ run => nomatch run

theorem both {end' : α → State → Prop} (leads : Leads pre p end_) (also_ : Leads pre p end') :
    Leads pre p fun a s => end_ a s ∧ end' a s :=
  fun s a s' before run => ⟨leads s a s' before run, also_ s a s' before run⟩

theorem weaken (narrower : ∀ s, pre s → pre' s) (leads : Leads pre' p end_) : Leads pre p end_ :=
  fun s a s' before run => leads s a s' (narrower s before) run

theorem widen (leads : Leads pre p mid) (wider : ∀ a s, mid a s → end_ a s) : Leads pre p end_ :=
  fun s a s' before run => wider a s' (leads s a s' before run)

theorem here (each : ∀ s, pre s → Leads (· = s) p end_) : Leads pre p end_ :=
  fun s a s' before run => each s before s a s' rfl run

theorem look (looks : Looks p) (then_ : ∀ a, Leads pre (f a) post) : Leads pre (p >>= f) post :=
  .bind (fun s a s' before run => looks s s a s' rfl run ▸ before) then_

theorem level {s : State} (leads : Leads s.Level p end_) : Leads (· = s) p end_ :=
  leads.weaken fun _ same => same ▸ .refl s

theorem token {s : State} {f : Token → Parse β} (then_ : Leads (· = s) (f s.token) post) :
    Leads (· = s) (Parse.token >>= f) post := by
  rintro t b s' rfl run
  exact then_ t b s' rfl run

theorem position {s : State} {f : Nat → Parse β} (then_ : Leads (· = s) (f s.token.start) post) :
    Leads (· = s) (Parse.position >>= f) post := by
  rintro t b s' rfl run
  exact then_ t b s' rfl run

theorem state {s : State} {f : State → Parse β} (then_ : Leads (· = s) (f s) post) :
    Leads (· = s) (get >>= f) post := by
  rintro t b s' rfl run
  exact then_ t b s' rfl run

theorem sees {s : State} {text : String} {f : Bool → Parse β} (then_ : Leads (· = s) (f (s.token.is text)) post) :
    Leads (· = s) (Parse.sees text >>= f) post := by
  rintro t b s' rfl run
  exact then_ t b s' rfl run

theorem seesAny {s : State} {texts : List String} {f : Bool → Parse β}
    (then_ : Leads (· = s) (f (s.token.isOneOf texts)) post) : Leads (· = s) (Parse.seesAny texts >>= f) post := by
  rintro t b s' rfl run
  exact then_ t b s' rfl run

theorem ite {c : Prop} [Decidable c] {q : Parse α} (yes : c → Leads pre p end_) (no : ¬ c → Leads pre q end_) :
    Leads pre (if c then p else q) end_ := by
  by_cases is : c
  · rw [if_pos is]
    exact yes is
  · rw [if_neg is]
    exact no is

theorem when {c : Prop} [Decidable c] {q : Parse Unit} {f : Unit → Parse β} (act : c → Leads pre q fun _ => pre)
    (then_ : Leads pre (f ()) post) : Leads pre (if c then q >>= f else f ()) post :=
  .ite (fun is => .bind (act is) fun _ => then_) fun _ => then_

theorem guard {c : Prop} [Decidable c] {f : Parse β} (then_ : ¬ c → Leads pre f post) :
    Leads pre (if c then (Alternative.failure : Parse Unit) >>= fun _ => f else f) post :=
  .ite (fun _ => .stop) then_

end Leads

namespace Gives

variable {α β : Type} {p : Parse α} {f : α → Parse β} {some_holds : α → Prop} {holds : β → Prop}

theorem skip (then_ : ∀ a, Gives (f a) holds) : Gives (p >>= f) holds :=
  .bind (fun _ _ _ _ _ => trivial) then_

theorem bind (first : Gives p some_holds) (then_ : ∀ a, some_holds a → Gives (f a) holds) :
    Gives (p >>= f) holds :=
  Leads.bind first fun a => .here fun _ is => (then_ a is).weaken fun _ _ => trivial

theorem pure {b : β} (now : holds b) : Gives (Pure.pure b) holds := Leads.pure fun _ _ => now

theorem failure : Gives (Alternative.failure : Parse β) holds := Leads.failure

theorem stop : Gives ((Alternative.failure : Parse α) >>= f) holds := Leads.stop

theorem ite {c : Prop} [Decidable c] {p q : Parse β} (yes : c → Gives p holds) (no : ¬ c → Gives q holds) :
    Gives (if c then p else q) holds := Leads.ite yes no

theorem node {kind : Kind} {start : Nat} {parts : List Node} {holds : Node → Prop}
    (now : ∀ stop, holds (.mk kind ⟨start, stop⟩ parts)) : Gives (Parse.node kind start parts) holds := by
  rintro s n s' - run
  cases run
  exact now s.lastStop

theorem within {change : Context → Context} (inner : Gives p some_holds) : Gives (Parse.within change p) some_holds :=
  .skip fun _ => .skip fun _ => .bind inner fun _ is => .skip fun _ => .pure is

theorem single {kind : Kind} {holds : Node → Prop} (now : ∀ span, holds (.mk kind span [])) :
    Gives (Parse.single kind) holds := .skip fun _ => .skip fun _ => .pure (now _)

end Gives

class Holds (α : Type) where
  nodes : α → List Node

export Holds (nodes)

instance : Holds Node := ⟨fun n => [n]⟩
instance : Holds (List Node) := ⟨id⟩
instance : Holds Unit := ⟨fun _ => []⟩
instance : Holds Bool := ⟨fun _ => []⟩
instance : Holds String := ⟨fun _ => []⟩
instance : Holds (List String) := ⟨fun _ => []⟩
instance {α : Type} [Holds α] : Holds (Option α) := ⟨fun a => a.elim [] nodes⟩
instance {α : Type} [Holds α] : Holds (α × Bool) := ⟨fun a => nodes a.1⟩
instance {α : Type} [Holds α] : Holds (Bool × α) := ⟨fun a => nodes a.2⟩

class Bare (α : Type) [Holds α] : Prop where
  bare : ∀ a : α, nodes a = []

instance : Bare Unit := ⟨fun _ => rfl⟩
instance : Bare Bool := ⟨fun _ => rfl⟩
instance : Bare String := ⟨fun _ => rfl⟩
instance : Bare (List String) := ⟨fun _ => rfl⟩

theorem Leads.loosen {α : Type} {p : Parse α} {s₀ : State} {used : Bool} {pre : State → Prop} {source : Source}
    {ms : α → List Node}
    (leads : Leads pre p fun a => Reading source s₀ used (ms a)) :
    Leads pre p fun a => Reading source.loosely s₀ used (ms a) := leads.widen fun _ _ reading => reading.loosen

-- A rule that reads the nodes it gives; `used` says that it passes a token.
def Reads (src : Passage) {α : Type} [Holds α] (used : Bool) (p : Parse α) : Prop :=
  ∀ s, s.Stands src → Leads (· = s) p fun a => Reading src s used (nodes a)

section
variable {α β : Type} [Holds α] {p : Parse α} {f : α → Parse β} {s₀ : State} {used more : Bool} {ns : List Node}
  {pre : State → Prop} {post : β → State → Prop}

theorem Reads.after (reads : Reads src more p) :
    Leads (Reading src s₀ used ns) p fun a => Reading src s₀ (used || more) (ns ++ nodes a) :=
  fun s a s' before run => before.trans (reads s before.stands s a s' rfl run)

theorem Reads.then (reads : Reads src more p)
    (then_ : ∀ a, Leads (Reading src s₀ (used || more) (ns ++ nodes a)) (f a) post) :
    Leads (Reading src s₀ used ns) (p >>= f) post := .bind reads.after then_

theorem Reads.pass [Bare α] (reads : Reads src more p)
    (then_ : ∀ a, Leads (Reading src s₀ (used || more) ns) (f a) post) :
    Leads (Reading src s₀ used ns) (p >>= f) post :=
  reads.then fun a => by rw [Bare.bare a, List.append_nil]; exact then_ a

theorem Reads.ignore (reads : Reads src more p)
    (then_ : ∀ a, Leads (Reading src s₀ (used || more) ns) (f a) post) :
    Leads (Reading src s₀ used ns) (p >>= f) post :=
  reads.then fun a => (then_ a).weaken fun _ reading => reading.sublist (List.sublist_append_left ns _)

theorem Reads.given {holds : α → Prop} (reads : Reads src more p) (gives : Gives p holds)
    (then_ : ∀ a, holds a → Leads (Reading src s₀ (used || more) (ns ++ nodes a)) (f a) post) :
    Leads (Reading src s₀ used ns) (p >>= f) post :=
  .bind (fun s a s' before run => And.intro (reads.after s a s' before run) (gives s a s' trivial run))
    fun a => .here fun _ ⟨reading, is⟩ => (then_ a is).weaken fun _ same => same ▸ reading

theorem Reads.keep {p : Parse Unit} (reads : Reads src false p) :
    Leads (Reading src s₀ used ns) p fun _ => Reading src s₀ used ns :=
  reads.after.widen fun a _ reading => by rwa [Bool.or_false, Bare.bare a, List.append_nil] at reading

theorem Looks.reads [Bare α] (looks : Looks p) : Reads src false p :=
  fun s stands => (looks s).widen fun a _ same => by rw [same, Bare.bare a]; exact .begin stands

theorem Reads.loosen (reads : Reads source used p) : Reads source.loosely used p :=
  fun s stands => (reads s stands.as).loosen

theorem Reads.less (reads : Reads src true p) (used : Bool) : Reads src used p :=
  fun s stands => (reads s stands).widen fun _ _ reading => reading.less used

end

theorem Leads.resume {α : Type} {p : Parse α} {s₀ s : State} {used : Bool} {ns : List Node}
    {end_ : α → State → Prop} (reading : Reading src s₀ used ns s)
    (leads : Leads (Reading src s₀ used ns) p end_) : Leads (· = s) p end_ :=
  leads.weaken fun _ same => same ▸ reading

theorem Leads.begin {α : Type} {p : Parse α} {end_ : α → State → Prop} {s : State} (stands : s.Stands src)
    (leads : Leads (Reading src s false []) p end_) : Leads (· = s) p end_ := .resume (.begin stands) leads

theorem Leads.onward {α : Type} {p : Parse α} {s₀ s : State} {used more : Bool} {ns ms : List Node}
    {end_ : α → State → Prop} (before : Reading src s₀ used ns s)
    (leads : Leads (Reading src s₀ (used || more) (ns ++ ms)) p end_) : Leads (Reading src s more ms) p end_ :=
  leads.weaken fun _ reading => before.trans reading

namespace Parse

theorem looks_token : Looks token := by rintro s t a s' rfl run; cases run; rfl

theorem looks_get : Looks (get : Parse State) := by rintro s t a s' rfl run; cases run; rfl

theorem looks_position : Looks position := by rintro s t a s' rfl run; cases run; rfl

theorem looks_dialect : Looks dialect := by rintro s t a s' rfl run; cases run; rfl

theorem looks_context : Looks context := by rintro s t a s' rfl run; cases run; rfl

theorem looks_isTyped : Looks isTyped := by rintro s t a s' rfl run; cases run; rfl

theorem looks_peek : Looks peek := by rintro s t a s' rfl run; cases run; rfl

theorem looks_sees (text : String) : Looks (sees text) := by rintro s t a s' rfl run; cases run; rfl

theorem looks_seesAny (texts : List String) : Looks (seesAny texts) := by rintro s t a s' rfl run; cases run; rfl

theorem looks_lookaheadOr {α : Type} (otherwise : α) (p : Parse α) : Looks (lookaheadOr otherwise p) := by
  rintro s t a s' rfl run
  unfold lookaheadOr at run
  split at run <;> cases run <;> rfl

theorem looks_pure {α : Type} (a : α) : Looks (pure a) := fun _ => .pure fun _ same => same

theorem looks_endsStatement : Looks endsStatement := by
  intro s
  unfold endsStatement
  refine .look looks_token fun t => ?_
  split
  · exact looks_pure true s
  · exact looks_pure _ s

end Parse

namespace Reading

variable {s₀ s s' : State} {used : Bool} {ns : List Node}

theorem move (reading : Reading src s₀ used ns s) (of : s'.token.Of src.text)
    (known : s'.token.lexeme ≠ .unknown) (behind : s.token.stop ≤ s'.token.start)
    (last : s'.lastStop = s.token.stop) (same : s'.dialect = s.dialect) : Reading src s₀ used ns s' := by
  have ordered := reading.stands.token.ordered
  have further : s.lastStop ≤ s'.lastStop := last ▸ reading.stands.behind.trans ordered
  refine ⟨⟨of, known, last ▸ behind, same.trans reading.stands.dialect⟩, ?_, ?_, ?_, fun here => ?_⟩
  · exact reading.onward.trans (ordered.trans behind)
  · exact reading.passed.trans further
  · exact reading.row.widen (Nat.le_refl _) further
  · exact Nat.lt_of_lt_of_le (reading.used here) further

theorem move_solid (reading : Reading src s₀ used ns s) (of : s'.token.Of src.text)
    (known : s'.token.lexeme ≠ .unknown) (behind : s.token.stop ≤ s'.token.start)
    (last : s'.lastStop = s.token.stop) (same : s'.dialect = s.dialect) (solid : s.token.start < s.token.stop) :
    Reading src s₀ true ns s' :=
  { reading.move of known behind last same with
    used := fun _ => last ▸ Nat.lt_of_le_of_lt reading.onward solid }

theorem change (reading : Reading src s₀ used ns s) (token : s'.token = s.token) (last : s'.lastStop = s.lastStop)
    (same : s'.dialect = s.dialect) : Reading src s₀ used ns s' := by
  obtain ⟨⟨of, known, behind, dialect⟩, onward, passed, row, used⟩ := reading
  rw [← token] at of known behind onward
  rw [← last] at behind passed row used
  exact ⟨⟨of, known, behind, same.trans dialect⟩, onward, passed, row, used⟩

end Reading

theorem Reading.level {s s' : State} (stands : s.Stands src) (level : s.Level s') : Reading src s false [] s' :=
  (Reading.begin stands).change level.token level.last level.dialect

namespace Parse

theorem eq_of_moveTo {s s' : State} {t : Token} {u : Unit} (run : moveTo t s = some (u, s')) :
    s' = { s with token := t, lastStop := s.token.stop } ∧ t.lexeme ≠ .unknown := by
  obtain ⟨lexeme, start, stop, newline, text⟩ := t
  cases lexeme <;> cases run <;> exact ⟨rfl, nofun⟩

theorem eq_of_reread {s s' : State} {t : Token} {u : Unit} (run : reread t s = some (u, s')) :
    s' = { s with token := t } ∧ t.lexeme ≠ .unknown := by
  obtain ⟨lexeme, start, stop, newline, text⟩ := t
  cases lexeme <;> cases run <;> exact ⟨rfl, nofun⟩

theorem eq_of_advance {s s' : State} {u : Unit} (run : advance s = some (u, s')) :
    s' = { s with token := s.token.next (html s), lastStop := s.token.stop } ∧
      (s.token.next (html s)).lexeme ≠ .unknown := eq_of_moveTo run

section
variable {s₀ : State} {used : Bool} {ns : List Node}

theorem reads_advance : Reads src false advance := by
  rintro s stands t u s' rfl run
  obtain ⟨rfl, known⟩ := eq_of_advance run
  obtain ⟨of, behind⟩ := stands.token.next (html t)
  exact (Reading.begin stands).move of known behind rfl rfl

theorem advance_solid {s s' : State} {u : Unit} (reading : Reading src s₀ used ns s)
    (solid : s.token.start < s.token.stop) (run : advance s = some (u, s')) : Reading src s₀ true ns s' := by
  obtain ⟨rfl, known⟩ := eq_of_advance run
  obtain ⟨of, behind⟩ := reading.stands.token.next (html s)
  exact reading.move_solid of known behind rfl rfl solid

theorem leads_advance {β : Type} {f : Unit → Parse β} {post : β → State → Prop}
    (facing : s₀.token.start < src.text.length) (then_ : Leads (Reading src s₀ true ns) (f ()) post) :
    Leads (Reading src s₀ used ns) (advance >>= f) post := by
  have moves : Leads (Reading src s₀ used ns) advance fun _ => Reading src s₀ true ns := by
    intro s a s' reading run
    by_cases more : s.token.lexeme = .finish
    · -- At the end the text as a whole has been passed.
      obtain ⟨rfl, known⟩ := eq_of_advance run
      obtain ⟨of, behind⟩ := reading.stands.token.next (html s)
      have ends := reading.stands.token.ends more
      have ordered := reading.stands.token.ordered
      have moved : Reading src s₀ used ns { s with token := s.token.next (html s), lastStop := s.token.stop } :=
        reading.move of known behind rfl rfl
      exact ⟨moved.stands, moved.onward, moved.passed, moved.row, fun _ => by dsimp only; omega⟩
    · exact advance_solid reading (reading.stands.solid more) run
  exact .bind moves fun _ => then_

theorem leads_step {s : State} {β : Type} {f : Unit → Parse β} {post : β → State → Prop} (stands : s.Stands src)
    (more : s.token.lexeme ≠ .finish) (then_ : Leads (Reading src s true []) (f ()) post) :
    Leads (· = s) (advance >>= f) post := .begin stands (leads_advance (stands.facing more) then_)

theorem leads_reread {s : State} {t : Token} (reading : Reading src s₀ used ns s) (of : t.Of src.text)
    (same : t.start = s.token.start) : Leads (· = s) (reread t) fun _ => Reading src s₀ used ns := by
  rintro t' u s' rfl run
  obtain ⟨rfl, known⟩ := eq_of_reread run
  exact ⟨⟨of, known, same ▸ reading.stands.behind, reading.stands.dialect⟩, same ▸ reading.onward, reading.passed,
    reading.row, reading.used⟩

theorem leads_piece {s : State} {t : Token} {β : Type} {f : Unit → Parse β} {post : β → State → Prop}
    (reading : Reading src s₀ used ns s) (closes : s.token.is "\x7d" = true) (piece : s.token.asPiece? = some t)
    (then_ : Leads (Reading src s₀ used ns) (f ()) post) : Leads (· = s) (reread t >>= f) post := by
  obtain ⟨of, same⟩ := reading.stands.token.asPiece? (reading.stands.token.solid_of_is closes) piece
  exact .bind (leads_reread reading of same) fun _ => then_

theorem reads_narrow : Reads src false narrow :=
  fun _ stands => .token (leads_reread (.begin stands) stands.token.narrowed (Token.narrowed_start _))

theorem reads_expect (text : String) : Reads src true (expect text) := by
  rintro s stands t u s' rfl run
  obtain ⟨b, t', saw, run⟩ := eq_of_bind run
  cases saw
  split at run
  · rename_i is
    exact advance_solid (Reading.begin stands) (stands.token.solid_of_is is) run
  · cases run

theorem leads_eat (text : String) {β : Type} {f : Bool → Parse β} {post : β → State → Prop}
    (yes : Leads (Reading src s₀ true ns) (f true) post) (no : Leads (Reading src s₀ used ns) (f false) post) :
    Leads (Reading src s₀ used ns) (eat text >>= f) post := by
  have eats : Leads (Reading src s₀ used ns) (eat text) fun b => Reading src s₀ (used || b) ns := by
    intro s b s' reading run
    obtain ⟨b, t, saw, run⟩ := eq_of_bind run
    cases saw
    split at run
    · rename_i is
      obtain ⟨v, t, moved, run⟩ := eq_of_bind run
      cases run
      rw [Bool.or_true]
      exact advance_solid reading (reading.stands.token.solid_of_is is) moved
    · cases run
      rwa [Bool.or_false]
  refine .bind eats fun b => ?_
  cases b with
  | true => rwa [Bool.or_true]
  | false => rwa [Bool.or_false]

theorem reads_eat (text : String) : Reads src false (eat text) := by
  intro s stands
  refine .begin stands ?_
  have known : eat text = eat text >>= pure := (bind_pure _).symm
  rw [known]
  exact leads_eat text (.pure fun _ reading => reading.less false) (.pure fun _ reading => reading)

theorem reads_eatIf (admitted : Bool) (text : String) : Reads src false (eatIf admitted text) := by
  intro s stands
  refine .begin stands (.ite (fun _ => (reads_eat text).after) fun _ => ?_)
  exact .pure fun _ reading => reading

theorem reads_semicolon : Reads src false semicolon := by
  intro s stands
  refine .begin stands (.look looks_endsStatement fun ends => .ite (fun _ => ?_) fun _ => .failure)
  exact (reads_eat ";").then fun _ => .pure fun _ reading => reading

theorem reads_flaw : Reads src false flaw := by
  rintro s stands t u s' rfl run
  cases run
  exact (Reading.begin stands).change rfl rfl rfl

theorem reads_flawIf (wrong : Bool) : Reads src false (flawIf wrong) := by
  cases wrong with
  | true => exact reads_flaw
  | false => exact fun s stands => .begin stands (.pure fun _ reading => reading)

theorem reads_absent : Reads src false absent := by
  rintro s stands t n s' rfl run
  cases run
  exact { Reading.begin stands with row := .leaf rfl (.inl rfl) }

theorem gives_absent : Gives absent fun n => n.isLeftOut = true := .skip fun _ => .pure rfl

theorem leads_single {kind : Kind} (leaf : kind.isLeaf = true) {s : State} (stands : s.Stands src)
    (more : s.token.lexeme ≠ .finish) : Leads s.Level (single kind) fun n => Reading src s true [n] := by
  intro t n s' level run
  obtain ⟨u, t', saw, run⟩ := eq_of_bind run
  cases saw
  obtain ⟨u, t', moved, run⟩ := eq_of_bind run
  cases run
  have solid : t.token.start < t.token.stop := level.token ▸ stands.solid more
  have same : t.token.start = s.token.start := congrArg Token.start level.token
  have last : s'.lastStop = t.token.stop := congrArg State.lastStop (eq_of_advance moved).1
  exact { advance_solid (.level stands level) solid moved with
    row := .leaf leaf (.inr ⟨solid, same ▸ Nat.le_refl _, last ▸ Nat.le_refl _⟩) }

theorem leads_node {kind : Kind} {parts : List Node} (plain : kind.isPlain = true) (some_of : parts.Sublist ns) :
    Leads (Reading src s₀ true ns) (node kind s₀.token.start parts) fun n => Reading src s₀ true [n] := by
  intro s n s' reading run
  cases run
  exact { reading with
    row := .single (.inr ⟨reading.used rfl, Nat.le_refl _, Nat.le_refl _⟩)
      (Node.sound_node plain (reading.row.sublist some_of)) (Node.snug_node plain (reading.row.sublist some_of)) }

theorem leads_instantiation {source : Source} {parts : List Node} (some_of : parts.Sublist ns) :
    Leads (Reading source s₀ true ns) (node .instantiation s₀.token.start parts) fun n => Reading source s₀ true [n] := by
  intro s n s' reading run
  cases run
  have row := reading.row.sublist some_of
  have formed : (Node.mk .instantiation ⟨s₀.token.start, s.lastStop⟩ parts).Formed source :=
    ⟨row.within, row.ordered.imp fun parted => parted.imp_right fun parted => parted.imp_right .inr, nofun, nofun,
      fun _ => row.snug rfl, nofun, nofun⟩
  exact { reading with
    row := .single (.inr ⟨reading.used rfl, Nat.le_refl _, Nat.le_refl _⟩) (Node.sound_of_parts formed row.sound)
      fun strict => Node.snug_of_parts rfl (fun part part_in => (row.within part part_in).imp_right fun inside => inside.2.2)
        (row.snug strict) }

theorem leads_shorthand {s s₁ : State} {key value : Node} (named : Reading src s true [key] s₁)
    (plain : key.isPlainName = true) :
    Leads (Reading src { s with lastStop := s₁.lastStop } true [value])
      (node .property s.token.start [key, value]) fun n => Reading src s true [n] := by
  intro t n s' reading run
  cases run
  have keyed := named.row.widen (Nat.le_refl _) reading.passed
  have nested : ∀ part ∈ [key, value], part.isLeftOut = true ∨ (part.span.start < part.span.stop ∧
      s.token.start ≤ part.span.start ∧ part.span.stop ≤ t.lastStop) := by
    intro part member
    rcases List.mem_pair.mp member with rfl | rfl
    · exact keyed.within _ List.mem_cons_self
    · exact reading.row.within _ List.mem_cons_self
  have sound : ∀ part ∈ [key, value], part.Sound src.toSource := by
    intro part member
    rcases List.mem_pair.mp member with rfl | rfl
    · exact keyed.sound _ List.mem_cons_self
    · exact reading.row.sound _ List.mem_cons_self
  have snug (strict : src.loose = false) : ∀ part ∈ [key, value], part.Snug := by
    intro part member
    rcases List.mem_pair.mp member with rfl | rfl
    · exact keyed.snug strict _ List.mem_cons_self
    · exact reading.row.snug strict _ List.mem_cons_self
  have formed : (Node.mk .property ⟨s.token.start, t.lastStop⟩ [key, value]).Formed src.toSource :=
    Node.formed_of_plain rfl nested (List.pairwise_pair.mpr (.inr (.inr (.inl ⟨rfl, plain⟩))))
  exact ⟨reading.stands, reading.onward, named.passed.trans reading.passed,
    .single (.inr ⟨reading.used rfl, Nat.le_refl _, Nat.le_refl _⟩) (Node.sound_of_parts formed sound) fun strict =>
      Node.snug_of_parts rfl (fun part member => (nested part member).imp_right fun inside => inside.2.2) (snug strict),
    reading.used⟩

theorem level_flawIf {s : State} (wrong : Bool) : Leads s.Level (flawIf wrong) fun _ => s.Level := by
  cases wrong with
  | true =>
      rintro t u s' ⟨token, last, dialect⟩ run
      cases run
      exact ⟨token, last, dialect⟩
  | false => exact .pure fun _ level => level

theorem leads_within {α : Type} {change : Context → Context} {p : Parse α} {more : Bool} {ms : α → List Node}
    (inner : Leads (Reading src s₀ used ns) p fun a => Reading src s₀ more (ms a)) :
    Leads (Reading src s₀ used ns) (within change p) fun a => Reading src s₀ more (ms a) := by
  intro s a s' reading run
  obtain ⟨c, t, saw, run⟩ := eq_of_bind run
  cases saw
  obtain ⟨u, t, changed, run⟩ := eq_of_bind run
  cases changed
  obtain ⟨b, t, ran, run⟩ := eq_of_bind run
  cases run
  have inside : Reading src s₀ used ns { s with context := change s.context } := reading.change rfl rfl rfl
  exact (inner _ a t inside ran).change rfl rfl rfl

theorem reads_within {α : Type} [Holds α] {change : Context → Context} {p : Parse α} {more : Bool}
    (reads : Reads src more p) : Reads src more (within change p) := by
  intro s stands
  exact .begin stands (leads_within reads.after)

theorem leads_attempt {α : Type} {p : Parse α} {pre : State → Prop} {post : α → State → Prop}
    (leads : Leads pre p post) : Leads pre (attempt p) fun r s => r.elim (pre s) fun a => post a s := by
  intro s r s' before run
  cases ran : p s with
  | none =>
      rw [attempt, ran] at run
      cases run
      exact before
  | some there =>
      rw [attempt, ran] at run
      cases run
      exact leads s _ _ before ran

theorem reads_attempt {α : Type} [Holds α] {p : Parse α} (reads : Reads src true p) :
    Reads src false (attempt p) := by
  intro s stands
  refine (leads_attempt (reads s stands)).widen fun r s' after => ?_
  cases r with
  | none =>
      obtain rfl : s' = s := after
      exact .begin stands
  | some a => exact Reading.less after false

variable {item : Parse Node} (each : Reads src true item)
include each

theorem reads_upTo (closers : List String) : Reads src false (upTo closers item) := by
  have counted (n : Nat) : Reads src false (upToCounted closers item n) := by
    induction n with
    | zero => exact fun _ _ => .failure
    | succ n ih =>
        intro s stands
        refine .begin stands (.look (looks_seesAny closers) fun closes => .ite (fun _ => ?_) fun _ => ?_)
        · exact .pure fun _ reading => reading
        · exact each.then fun x => ih.then fun xs => .pure fun _ reading => reading.less false
  exact fun s stands => .look looks_get fun t => counted t.limit s stands

omit each in
theorem reads_commas {more : Bool} (each : Reads src more item) (close : String) :
    Reads src false (commas close item) := by
  have counted (n : Nat) : Reads src false (commasCounted close item n) := by
    induction n with
    | zero => exact fun _ _ => .failure
    | succ n ih =>
        intro s stands
        refine .begin stands (.look (looks_sees close) fun closes => .ite (fun _ => ?_) fun _ => ?_)
        · exact .pure fun _ reading => reading
        · refine each.then fun x => leads_eat "," ?_ (.pure fun _ reading => reading.forget)
          refine .look (looks_sees close) fun closes => .ite (fun _ => ?_) fun _ => ?_
          · exact .pure fun _ reading => reading.forget
          · exact ih.then fun xs => .pure fun _ reading => reading.forget
  exact fun s stands => .look looks_get fun t => counted t.limit s stands

omit each in
theorem gives_commas {holds : Node → Prop} (each : Gives item holds) (close : String) :
    Gives (commas close item) fun items => ∀ n ∈ items.1, holds n := by
  have counted (n : Nat) : Gives (commasCounted close item n) fun items => ∀ n ∈ items.1, holds n := by
    induction n with
    | zero => exact .failure
    | succ n ih =>
        refine .skip fun closes => .ite (fun _ => .pure nofun) fun _ => .bind each fun x is => .skip fun comma => ?_
        refine .ite (fun _ => .skip fun closes => .ite (fun _ => ?_) fun _ => ?_) fun _ => ?_
        · exact .pure (List.forall_mem_singleton.mpr is)
        · exact .bind ih fun xs are => .pure (List.forall_mem_cons.mpr ⟨is, are⟩)
        · exact .pure (List.forall_mem_singleton.mpr is)
  exact .skip fun t => counted t.limit

theorem reads_separated (separator : String) : Reads src true (separated separator item) := by
  have counted (n : Nat) : Reads src true (separatedCounted separator item n) := by
    induction n with
    | zero => exact fun _ _ => .failure
    | succ n ih =>
        intro s stands
        refine .begin stands (each.then fun x => leads_eat separator ?_ (.pure fun _ reading => reading))
        exact ih.then fun xs => .pure fun _ reading => reading
  exact fun s stands => .look looks_get fun t => counted t.limit s stands

omit each

theorem reads_skipWhile {more : Parse Bool} (moves : Reads src false more) : Reads src false (skipWhile more) := by
  have counted (n : Nat) : Reads src false (skipCounted more n) := by
    induction n with
    | zero => exact fun _ _ => .failure
    | succ n ih =>
        intro s stands
        refine .begin stands (moves.then fun b => .ite (fun _ => ?_) fun _ => .pure fun _ reading => reading)
        exact reads_advance.then fun _ => ih.after
  exact fun s stands => .look looks_get fun t => counted t.limit s stands

theorem leads_extend {α : Type} {step : α → Parse (Option α)} {held : α → State → Prop}
    (each : ∀ x, Leads (held x) (step x) fun y => held (y.getD x)) (x : α) :
    Leads (held x) (extend step x) held := by
  have counted (n : Nat) : ∀ x, Leads (held x) (foldCounted step n x) held := by
    induction n with
    | zero => exact fun _ => .failure
    | succ n ih =>
        refine fun x => .bind (each x) fun y => ?_
        cases y with
        | some y => exact ih y
        | none => exact .pure fun _ kept => kept
  exact .look looks_get fun t => counted t.limit x

theorem leads_optional {β : Type} (text : String) {f : Node → Parse β} {post : β → State → Prop}
    (each : Reads src true item) (then_ : ∀ n, Leads (Reading src s₀ used (ns ++ [n])) (f n) post) :
    Leads (Reading src s₀ used ns) (eat text >>= fun b => if b = true then item >>= f else absent >>= f) post :=
  leads_eat text (each.then fun n => (then_ n).weaken fun _ reading => reading.less used)
    (reads_absent.then fun n => by rw [Bool.or_false]; exact then_ n)

end

end Parse

def Rule.isStatement : Rule → Bool
  | .statement _ => true
  | _ => false

def Grammar.Sound (src : Source) (g : Grammar) : Prop := ∀ r : Rule, Reads ⟨src, r.isStatement⟩ true (g r)

end Prerender.Script
