import ArenaScript.Engine.Heap
import ArenaScript.Proofs.Lockstep.World

/-!
# Related arenas

Arenas that hold the heaps of a world answer the same questions in the same
way: a search finds related properties or nothing in all of them, a string has
the same bytes in all of them.  New entities and new values of properties lead
to a world that relates more.

Main results:

- `World.Fits.findProperty`, `World.Fits.findInScopes`: searches.
- `World.Fits.properties`: property lists.
- `World.Fits.resolve`: plain values.
- `World.Fits.newString`, `World.Fits.newObject`, `World.Fits.newProperty`: new entities.
- `World.Fits.assign`: new values.
-/

namespace ArenaScript.Lockstep

variable {ι : Type} [Rules ι]

/-- Arenas of one size that hold the heaps of a world, all of them well formed and
followed.  No string in them reaches the mark of a header. -/
structure World.Fits (w : World ι) (arena : ι → Arena) : Prop where
  small : w.size ≤ 2 ^ 29
  size : ∀ i, (arena i).bytes.size = w.size
  holds : ∀ i, (arena i).Holds (w.heap i) (w.scratch i)
  good : ∀ i, (w.heap i).WellFormed
  matched : w.Matched
  followed : w.Followed

namespace World.Fits

variable {w : World ι} {arena : ι → Arena} {a : ι → UInt32} {ages : List Nat} {names : Names}
  {age bound : Nat} {text : ByteArray}

variable (fits : w.Fits arena)
include fits

theorem size_le (i : ι) : (arena i).bytes.size ≤ 2 ^ 29 :=
  (fits.size i).trans_le fits.small

theorem limit_le (i : ι) : (arena i).limit.toNat ≤ 2 ^ 29 :=
  (fits.holds i).limit_le_size.trans (fits.size_le i)

theorem chainBound (i : ι) : (arena i).chainBound = w.size + 1 := by
  rw [Arena.chainBound, fits.size]

/-- Related offsets are steps allowed in a chain. -/
theorem lt_bound {sh : Shape} (rel : w.rel sh a) (i : ι) : (a i).toNat < w.size + 1 := by
  obtain ⟨e, found⟩ := fits.matched.found rel i
  rw [← fits.chainBound i]
  exact (fits.holds i).lt_chainBound found

/-- Arenas with the same records fit the same world. -/
theorem congr {arena' : ι → Arena} (holds : ∀ i, (arena' i).Holds (w.heap i) (w.scratch i))
    (block : ∀ i, (arena i).SameBlock (arena' i)) : w.Fits arena' where
  small := fits.small
  size := fun i => (block i).size_eq.trans (fits.size i)
  holds := holds
  good := fits.good
  matched := fits.matched
  followed := fits.followed

/-! ## Reading entities -/

theorem stringBytes (rel : w.rel (.string age text) a) (i : ι) :
    (arena i).stringBytes (a i) = .ok text :=
  (fits.holds i).stringBytes_eq ((fits.good i).at?_eq (fits.matched.content rel i))

theorem stringLength (rel : w.rel (.string age text) a) (i : ι) :
    (arena i).stringLength (a i) = .ok (UInt32.ofNat text.size) := by
  obtain ⟨n, length, same⟩ :=
    (fits.holds i).stringLength_eq ((fits.good i).at?_eq (fits.matched.content rel i))
  rw [length, ← same, UInt32.ofNat_toNat]

/-- A string is shorter than its arena. -/
theorem text_lt [Nonempty ι] (rel : w.rel (.string age text) a) : text.size < 2 ^ 29 := by
  have i := Classical.arbitrary ι
  have found := (fits.good i).at?_eq (fits.matched.content rel i)
  have short : text.size + 1 < 2 ^ 29 := (fits.holds i).fits found
  omega

theorem parent (rel : w.rel (.object ages) a) :
    ∃ up, (∀ i, (arena i).parent (a i) = .ok (up i)) ∧ w.rel (.object ages.tail) up
      ∧ ∀ i, up i < a i ∨ a i = 0 ∧ up i = 0 := by
  obtain ⟨first, up, there, -, rel'⟩ := fits.matched.content rel
  refine ⟨up, fun i => ?_, rel', fun i => ?_⟩
  · exact (fits.holds i).parent_eq ((fits.good i).at?_eq (there i))
  · exact ((fits.good i).admits _ _ (there i)).2.2

theorem firstProperty (rel : w.rel (.object ages) a) :
    ∃ first, (∀ i, (arena i).firstProperty (a i) = .ok (first i)) ∧ w.Link first := by
  obtain ⟨first, up, there, link, -⟩ := fits.matched.content rel
  refine ⟨first, fun i => ?_, link⟩
  exact (fits.holds i).firstProperty_eq ((fits.good i).at?_eq (there i))

theorem nextProperty (rel : w.rel (.property names) a) :
    ∃ next, (∀ i, (arena i).nextProperty (a i) = .ok (next i)) ∧ w.Lists names.tail next
      ∧ ∀ i, (next i).toNat < (a i).toNat := by
  obtain ⟨next, key, value, _, text, tag, there, -, lists, -⟩ := fits.matched.content rel
  refine ⟨next, fun i => ?_, lists, fun i => ?_⟩
  · exact (fits.holds i).nextProperty_eq ((fits.good i).at?_eq (there i))
  · rcases ((fits.good i).admits _ _ (there i)).1 with zero | ⟨-, less⟩
    · have some := fits.matched.ne_zero rel nofun i
      rw [zero, UInt32.toNat_zero]
      exact Nat.pos_of_ne_zero fun h => some (UInt32.toNat_inj.mp h)
    · rwa [UInt32.lt_iff_toNat_lt] at less

theorem propertyKey (rel : w.rel (.property names) a) :
    ∃ age text key, (∀ i, (arena i).propertyKey (a i) = .ok (key i))
      ∧ w.rel (.string age text) key ∧ names.head?.map Prod.snd = some text := by
  obtain ⟨next, key, value, age, text, tag, there, head, -, string, -⟩ := fits.matched.content rel
  refine ⟨age, text, key, fun i => ?_, string, head⟩
  exact (fits.holds i).propertyKey_eq ((fits.good i).at?_eq (there i))

theorem propertyValue (rel : w.rel (.property names) a) :
    ∃ tag v, (∀ i, (arena i).propertyValue (a i) = .ok (v i)) ∧ w.Related tag v ∧ tag.IsPlain := by
  obtain ⟨next, key, value, _, text, tag, there, -, -, -, related, plain⟩ :=
    fits.matched.content rel
  refine ⟨tag, value, fun i => ?_, related, plain⟩
  exact (fits.holds i).propertyValue_eq ((fits.good i).at?_eq (there i))

/-- Related properties lie below the ends of the entities. -/
theorem not_end (rel : w.rel (.property names) a) (i : ι) : ¬ (a i = 0 ∨ (arena i).used ≤ a i) := by
  obtain ⟨e, found⟩ := fits.matched.found rel i
  rintro (zero | beyond)
  · exact fits.matched.ne_zero rel nofun i zero
  · exact (fits.holds i).not_used_le ((fits.good i).at?_eq found) beyond

/-! ## Searches -/

/-- The induction is on the bound, which stays above the offsets because lists
of properties lead downwards. -/
theorem findFrom [Nonempty ι] (name : ByteArray) (lists : w.Lists names a)
    (small : ∀ i, (a i).toNat < bound) :
    ∃ r, (∀ i, (arena i).findFrom name bound (a i) = .ok (r i))
      ∧ w.Lists (names.startingAt name) r := by
  induction bound generalizing names a with
  | zero => exact absurd (small (Classical.arbitrary ι)) (Nat.not_lt_zero _)
  | succ bound ih =>
    cases names with
    | nil =>
      refine ⟨fun _ => 0, fun i => ?_, fun _ => rfl⟩
      rw [Arena.findFrom, if_pos (.inl (lists i))]
    | cons first rest =>
      obtain ⟨_, _, key, keys, string, head⟩ := fits.propertyKey lists
      obtain rfl := Option.some.inj head
      obtain ⟨next, nexts, tail, lower⟩ := fits.nextProperty lists
      have bytes := fits.stringBytes string
      have ends := fits.not_end lists
      by_cases found : first.2 = name
      · refine ⟨a, fun i => ?_, ?_⟩
        · simp only [Arena.findFrom, if_neg (ends i), keys, ok_bind, bytes, found, if_true]
          rfl
        · rwa [Names.startingAt_of_eq found]
      · have small' : ∀ i, (next i).toNat < bound := by
          intro i
          have above := small i
          have below := lower i
          omega
        obtain ⟨r, run, result⟩ := ih tail small'
        refine ⟨r, fun i => ?_, ?_⟩
        · simp only [Arena.findFrom, if_neg (ends i), keys, ok_bind, bytes, if_neg found, nexts]
          exact run i
        · rwa [Names.startingAt_of_ne found]

/-- A link is a step allowed in a chain. -/
theorem link_lt_bound (link : w.Link a) (i : ι) : (a i).toNat < w.size + 1 := by
  rcases link with none | ⟨names, rel⟩
  · rw [none i, UInt32.toNat_zero]
    exact Nat.succ_pos _
  · exact fits.lt_bound rel i

/-- The property of related objects with a key. -/
theorem findProperty [Nonempty ι] (name : ByteArray) (rel : w.rel (.object ages) a) :
    ∃ r, (∀ i, (arena i).findProperty (a i) name = .ok (r i)) ∧ w.Link r := by
  obtain ⟨first, firsts, link⟩ := fits.firstProperty rel
  obtain ⟨names, lists⟩ := fits.matched.exists_lists link
  obtain ⟨r, run, result⟩ := fits.findFrom name lists (fits.link_lt_bound link)
  refine ⟨r, fun i => ?_, result.link⟩
  rw [Arena.findProperty, firsts, ok_bind, fits.chainBound]
  exact run i

/-- The global scope is the same tuple in all heaps. -/
theorem scope_cases (rel : w.rel (.object ages) a) : (∀ i, a i = 0) ∨ ∀ i, a i ≠ 0 := by
  by_cases some : ∀ i, a i ≠ 0
  · exact .inr some
  · obtain ⟨i, zero⟩ := not_forall.mp some
    have zero := not_not.mp zero
    obtain ⟨-, same⟩ := fits.matched.unique i rel fits.matched.origin zero
    exact .inl fun j => congrFun same j

/-- The property of a name in related chains of scopes. -/
theorem findInScopes [Nonempty ι] (name : ByteArray)
    (rel : w.rel (.object ages) a) (small : ∀ i, (a i).toNat < bound) :
    ∃ r, (∀ i, (arena i).findInScopes name bound (a i) = .ok (r i)) ∧ w.Link r := by
  induction bound generalizing ages a with
  | zero => exact absurd (small (Classical.arbitrary ι)) (Nat.not_lt_zero _)
  | succ bound ih =>
    obtain ⟨r, run, link⟩ := fits.findProperty name rel
    rcases fits.matched.link_cases link with none | ⟨property, some⟩
    · rcases fits.scope_cases rel with top | inner
      · refine ⟨fun _ => 0, fun i => ?_, .inl fun _ => rfl⟩
        rw [Arena.findInScopes, run, ok_bind, if_neg (not_not.mpr (none i)), if_pos (top i)]
        rfl
      · obtain ⟨up, ups, object, order⟩ := fits.parent rel
        have small' : ∀ i, (up i).toNat < bound := by
          intro i
          have above := small i
          have lower := (order i).resolve_right fun top => inner i top.1
          rw [UInt32.lt_iff_toNat_lt] at lower
          omega
        obtain ⟨r', run', link'⟩ := ih object small'
        refine ⟨r', fun i => ?_, link'⟩
        rw [Arena.findInScopes, run, ok_bind, if_neg (not_not.mpr (none i)), if_neg (inner i), ups,
          ok_bind]
        exact run' i
    · refine ⟨r, fun i => ?_, link⟩
      rw [Arena.findInScopes, run, ok_bind, if_pos (some i)]
      rfl

/-- Lists of related properties. -/
theorem propertiesFrom [Nonempty ι] (lists : w.Lists names a) (small : ∀ i, (a i).toNat < bound) :
    ∃ list : List (ι → UInt32),
      (∀ i, (arena i).propertiesFrom bound (a i) = .ok (list.map fun p => p i))
        ∧ ∀ p ∈ list, ∃ names, w.rel (.property names) p := by
  induction bound generalizing a names with
  | zero => exact absurd (small (Classical.arbitrary ι)) (Nat.not_lt_zero _)
  | succ bound ih =>
    cases names with
    | nil =>
      refine ⟨[], fun i => ?_, nofun⟩
      rw [Arena.propertiesFrom, if_pos (.inl (lists i))]
      rfl
    | cons first rest =>
      obtain ⟨next, nexts, tail, lower⟩ := fits.nextProperty lists
      have ends := fits.not_end lists
      have small' : ∀ i, (next i).toNat < bound := by
        intro i
        have above := small i
        have below := lower i
        omega
      obtain ⟨list, run, all⟩ := ih tail small'
      refine ⟨a :: list, fun i => ?_, ?_⟩
      · rw [Arena.propertiesFrom, if_neg (ends i), nexts, ok_bind, run]
        rfl
      · exact List.forall_mem_cons.mpr ⟨⟨_, lists⟩, all⟩

/-- The properties of related objects, in order. -/
theorem properties [Nonempty ι] (rel : w.rel (.object ages) a) :
    ∃ list : List (ι → UInt32), (∀ i, (arena i).properties (a i) = .ok (list.map fun p => p i))
      ∧ ∀ p ∈ list, ∃ names, w.rel (.property names) p := by
  obtain ⟨first, firsts, link⟩ := fits.firstProperty rel
  obtain ⟨names, lists⟩ := fits.matched.exists_lists link
  obtain ⟨list, run, all⟩ := fits.propertiesFrom lists (fits.link_lt_bound link)
  refine ⟨list, fun i => ?_, all⟩
  rw [Arena.properties, firsts, ok_bind, fits.chainBound]
  exact run i

/-- Property references are followed to plain values; other values stay. -/
theorem resolve {tag : Tag} {v : ι → Value} (related : w.Related tag v) :
    ∃ tag' v', (∀ i, (arena i).resolve (v i) = .ok (v' i)) ∧ w.Related tag' v'
      ∧ (tag.IsOperand → tag'.IsPlain) ∧ (tag.kind ≠ .property → tag' = tag ∧ v' = v) := by
  by_cases property : tag.kind = .property
  · obtain ⟨names, rfl⟩ := related.eq_property property
    obtain ⟨a, rel, eq⟩ := related
    obtain ⟨tag', v', values, related', plain⟩ := fits.propertyValue rel
    refine ⟨tag', v', fun i => ?_, related', fun _ => plain, fun other => absurd property other⟩
    have kind : (v' i).kind ≠ .property := by
      rw [related'.kind i]
      exact plain.1
    obtain ⟨n, bound⟩ : ∃ n, (arena i).chainBound = n + 2 := by
      obtain ⟨e, found⟩ := fits.matched.found rel i
      have inside := (fits.holds i).record_le_size ((fits.good i).at?_eq found)
      have positive := Record.eight_le_size ⟨e, false⟩
      exact ⟨(arena i).bytes.size - 1, by simp only [Arena.chainBound]; omega⟩
    rw [Arena.resolve, bound, Arena.resolveFrom, eq, Value.kind_ref, if_pos rfl, Value.offset_ref,
      values, ok_bind, Arena.resolveFrom, if_neg kind]
  · refine ⟨tag, v, fun i => ?_, related, fun operand => ⟨property, operand⟩, fun _ => ⟨rfl, rfl⟩⟩
    rw [← related.kind i] at property
    rw [Arena.resolve, Arena.chainBound, Arena.resolveFrom, if_neg property]

end World.Fits

/-! ## New entities -/

/-- Attempts to make an entity in every arena end, and if all of them succeed
the new entities are related in a larger world.  Objects with ages that are spared
stay frozen. -/
def World.Allocates (w : World ι) (arena : ι → Arena) (sh : Shape) (spared : List Nat → Prop)
    (new : ι → Arena → Except Halt (Option (UInt32 × Arena))) : Prop :=
  (∀ i, ∃ r, new i (arena i) = .ok r) ∧
    ∀ o arena', (∀ i, new i (arena i) = .ok (some (o i, arena' i))) →
      ∃ w' : World ι, w.Le w' ∧ w'.Fits arena' ∧ w'.rel sh o ∧ w'.scratch = w.scratch
        ∧ (∀ i, (arena' i).limit = (arena i).limit)
        ∧ ∀ ages names, spared ages → w.Freezes ages names → w'.Freezes ages names

namespace World.Fits

variable {w : World ι} {arena : ι → Arena} {text : ByteArray} {a : ι → UInt32} {ages : List Nat}

variable (fits : w.Fits arena)
include fits

/-- Related offsets lie below the ends of the entities. -/
theorem lt_used {sh : Shape} (rel : w.rel sh a) (i : ι) : a i < (arena i).used := by
  obtain ⟨e, found⟩ := fits.matched.found rel i
  rw [← UInt32.not_le]
  exact (fits.holds i).not_used_le ((fits.good i).at?_eq found)

theorem isObject (rel : w.rel (.object ages) a) (i : ι) : (w.heap i).IsObject (a i) := by
  obtain ⟨first, parent, there, -⟩ := fits.matched.content rel
  exact ⟨_, _, there i⟩

theorem isString {age : Nat} (rel : w.rel (.string age text) a) (i : ι) :
    (w.heap i).IsString (a i) :=
  ⟨_, fits.matched.content rel i⟩

theorem isLink (link : w.Link a) (i : ι) :
    a i = 0 ∨ (w.heap i).IsProperty (a i) ∧ a i < (arena i).used := by
  rcases link with none | ⟨names, rel⟩
  · exact .inl (none i)
  · obtain ⟨next, key, value, _, text, tag, there, -⟩ := fits.matched.content rel
    exact .inr ⟨⟨_, _, _, there i⟩, fits.lt_used rel i⟩

omit fits in
/-- The outcome of an attempt, read off what is known of it. -/
theorem grown {a a' : Arena} {h : Heap} {scratch : List Value} {size : Nat} {o : UInt32}
    {attempt : Except Halt (Option (UInt32 × Arena))}
    (known : ∃ r, attempt = .ok r ∧ a.Grows h scratch size r)
    (made : attempt = .ok (some (o, a'))) :
    o = a.used ∧ a'.Holds h scratch ∧ a.SameBlock a' := by
  obtain ⟨r, run, grows⟩ := known
  obtain rfl : r = some (o, a') := Except.ok.inj (run.symm.trans made)
  exact grows

/-- New objects whose parents are related. -/
theorem newObject {parent : ι → UInt32} (rel : w.rel (.object ages) parent) :
    w.Allocates arena (.object (w.made :: ages)) (fun _ => True)
      fun i a => a.newObject? (parent i) := by
  have known := fun i => (fits.holds i).newObject?_eq (fits.limit_le i) (parent i)
  refine ⟨fun i => (known i).imp fun r h => h.1, fun o arena' made => ?_⟩
  have grown := fun i => grown (known i) (made i)
  have place : ∀ i, (w.heap i).extent = (o i).toNat := fun i => by
    rw [(grown i).1]
    exact (fits.holds i).extent_eq
  let r : ι → Record := fun i => ⟨.object 0 (parent i), false⟩
  refine ⟨(w.withHeap fun i => w.heap i ++ [r i]).relating (.object (w.made :: ages)) o,
    fun _ _ h => .inl h, ⟨fits.small, fun i => ?_, fun i => (grown i).2.1, fun i => ?_, ?_,
      fits.followed.alters (alters_grow r o rfl)⟩, .inr ⟨rfl, rfl⟩, rfl,
    fun i => (grown i).2.2.limit_eq, fun _ _ _ => fits.matched.freezes_grow rfl⟩
  · exact (grown i).2.2.size_eq.trans (fits.size i)
  · refine (fits.good i).append (place i) ⟨.inl rfl, fits.isObject rel i, .inl ?_⟩
    rw [(grown i).1]
    exact fits.lt_used rel i
  · refine fits.matched.grow place rfl
      ⟨fun _ => 0, parent, fun i => ?_, .inl fun _ => rfl, .inl rel⟩
    rw [← place i]
    exact Heap.entity?_append_self _ _

/-- New strings with the same text, however their bytes got there. -/
theorem growString {o : ι → UInt32} {arena' : ι → Arena} (grown : ∀ i, o i = (arena i).used
      ∧ (arena' i).Holds (w.heap i ++ [⟨.string text, false⟩]) (w.scratch i)
      ∧ (arena i).SameBlock (arena' i)) :
    ∃ w' : World ι, w.Le w' ∧ w'.Fits arena' ∧ w'.rel (.string w.made text) o
      ∧ w'.scratch = w.scratch ∧ (∀ i, (arena' i).limit = (arena i).limit)
      ∧ ∀ ages names, True → w.Freezes ages names → w'.Freezes ages names := by
  have place : ∀ i, (w.heap i).extent = (o i).toNat := fun i => by
    rw [(grown i).1]
    exact (fits.holds i).extent_eq
  let r : Record := ⟨.string text, false⟩
  refine ⟨(w.withHeap fun i => w.heap i ++ [r]).relating (.string w.made text) o,
    fun _ _ h => .inl h, ⟨fits.small, fun i => ?_, fun i => (grown i).2.1, fun i => ?_, ?_,
      fits.followed.alters (alters_grow _ o rfl)⟩, .inr ⟨rfl, rfl⟩, rfl,
    fun i => (grown i).2.2.limit_eq, fun _ _ _ => fits.matched.freezes_grow rfl⟩
  · exact (grown i).2.2.size_eq.trans (fits.size i)
  · exact (fits.good i).append (place i) trivial
  · refine fits.matched.grow place rfl fun i => ?_
    rw [← place i]
    exact Heap.entity?_append_self _ _

/-- New strings with the same text. -/
theorem newString (short : text.size < 2 ^ 31) :
    w.Allocates arena (.string w.made text) (fun _ => True) fun _ a => a.newString? text := by
  have known := fun i => (fits.holds i).newString?_eq (fits.limit_le i) short
  refine ⟨fun i => (known i).imp fun r h => h.1, fun o arena' made => ?_⟩
  exact fits.growString fun i => grown (known i) (made i)

/-- New strings of bytes already in place. -/
theorem newStringInPlace (short : ∀ i, text.size < (arena i).bytes.size)
    (body : ∀ i, (arena i).bytes.extract ((arena i).used.toNat + 4)
      ((arena i).used.toNat + 4 + text.size) = text) :
    w.Allocates arena (.string w.made text) (fun _ => True)
      fun _ a => a.newStringInPlace? (UInt32.ofNat text.size) := by
  have known := fun i => (fits.holds i).newStringInPlace?_eq (fits.limit_le i) (by
    have size := fits.size_le i
    have here := short i
    omega) (body i)
  refine ⟨fun i => (known i).imp fun r h => h.1, fun o arena' made => ?_⟩
  exact fits.growString fun i => grown (known i) (made i)

/-- New properties of related objects. -/
theorem newProperty [Nonempty ι] {object key : ι → UInt32} {age : Nat}
    {tag : Tag} {v : ι → Value} (rel : w.rel (.object ages) object)
    (string : w.rel (.string age text) key) (related : w.Related tag v) (plain : tag.IsPlain) :
    ∃ names, w.Allocates arena (.property ((w.made, text) :: names)) (· ≠ ages)
      fun i a => a.newProperty? (object i) (key i) (v i) := by
  obtain ⟨first, parent, there, link, up⟩ := fits.matched.content rel
  obtain ⟨names, lists⟩ := fits.matched.exists_lists link
  have known := fun i => (fits.holds i).newProperty?_eq (fits.limit_le i)
    ((fits.good i).at?_eq (there i)) (key i) (v i)
  refine ⟨names, fun i => (known i).imp fun r h => h.1, fun o arena' made => ?_⟩
  have grown := fun i => grown (known i) (made i)
  have place : ∀ i, (w.heap i).extent = (o i).toNat := fun i => by
    rw [(grown i).1]
    exact (fits.holds i).extent_eq
  -- first the property comes to the end, then the object refers to it
  let w₁ := (w.withHeap fun i => w.heap i ++ [⟨.property (first i) (key i) (v i), false⟩]).relating
    (.property ((w.made, text) :: names)) o
  have le : w.Le w₁ := fun _ _ h => .inl h
  have here : w₁.rel (.property ((w.made, text) :: names)) o := .inr ⟨rfl, rfl⟩
  have there₁ : ∀ i, (w₁.heap i).entity? (object i).toNat
      = some (.object (first i) (parent i)) := fun i => Heap.entity?_append_left (there i)
  have last : ∀ i, (w₁.heap i).entity? (o i).toNat
      = some (.property (first i) (key i) (v i)) := fun i => by
    rw [← place i]
    exact Heap.entity?_append_self _ _
  have matched₁ : w₁.Matched := fits.matched.grow place rfl
    ⟨first, key, v, age, text, tag, last, rfl, lists.mono le, le _ _ string, related.mono le,
      plain⟩
  have followed₁ : w₁.Followed := fits.followed.alters (alters_grow _ o rfl)
  have good₁ : ∀ i, (w₁.heap i).WellFormed := fun i => by
    refine (fits.good i).append (place i) ⟨?_, ⟨fits.isString string i, ?_⟩,
      related.types fits.matched i, related.isPlain plain i⟩
    · rw [(grown i).1]
      exact fits.isLink link i
    · rw [(grown i).1]
      exact fits.lt_used string i
  have same : ∀ i e, (w₁.heap i).entity? (object i).toNat = some e →
      e.SameKind (.object (o i) (parent i)) := fun i e found => by
    rw [there₁ i, Option.some.injEq] at found
    subst found
    trivial
  have new : ∀ i, (w₁.heap i).update (object i).toNat ⟨.object (o i) (parent i), false⟩
      = (w.heap i).update (object i).toNat ⟨.object (arena i).used (parent i), false⟩
        ++ [⟨.property (first i) (key i) (v i), false⟩] := fun i => by
    rw [(grown i).1]
    exact Heap.update_append_left ((fits.good i).at?_eq (there i))
  refine ⟨w₁.withHeap fun i => (w₁.heap i).update (object i).toNat
      ⟨.object (o i) (parent i), false⟩, le,
    ⟨fits.small, fun i => ?_, fun i => ?_, fun i => ?_, ?_,
      followed₁.alters (alters_withHeap fun i => ?_)⟩, here, rfl, fun i => (grown i).2.2.limit_eq,
    fun ages' names' other freezes => ?_⟩
  · exact (grown i).2.2.size_eq.trans (fits.size i)
  · show (arena' i).Holds ((w₁.heap i).update (object i).toNat _) (w.scratch i)
    rw [new i]
    exact (grown i).2.1
  · refine (good₁ i).replace (there₁ i) trivial ⟨.inr ⟨_, _, _, last i⟩, ?_⟩
    exact ((good₁ i).admits _ _ (there₁ i)).2
  · refine matched₁.replace (le _ _ rel) same ⟨o, parent, fun i => ?_, .inr ⟨_, here⟩, le _ _ up⟩
    exact (Heap.entity?_update (there₁ i) (same i _ (there₁ i)) _).trans (if_pos rfl)
  · exact .link (there₁ i) (last i)
  · exact matched₁.freezes_replace (le _ _ rel) same (fun eq => other (Shape.object.inj eq).symm)
      (fits.matched.freezes_grow rfl freezes)

/-! ## New values -/

/-- Related properties take on related values. -/
theorem assign [Nonempty ι] {property : ι → UInt32} {names : Names}
    {tag : Tag} {v : ι → Value} (rel : w.rel (.property names) property)
    (related : w.Related tag v) (plain : tag.IsPlain) :
    ∃ (w' : World ι) (arena' : ι → Arena),
      (∀ i, (arena i).assign (property i) (v i) = .ok (arena' i))
        ∧ w.Le w' ∧ w'.Fits arena' ∧ w'.scratch = w.scratch
        ∧ (∀ i, (arena' i).limit = (arena i).limit)
        ∧ ∀ ages names, w.Freezes ages names → w'.Freezes ages names := by
  obtain ⟨next, key, value, _, text, tag', there, head, lists, string, -⟩ :=
    fits.matched.content rel
  choose arena' store holds block using fun i =>
    (fits.holds i).store_value ((fits.good i).at?_eq (there i)) (v i)
  have same : ∀ i e, (w.heap i).entity? (property i).toNat = some e →
      e.SameKind (.property (next i) (key i) (v i)) := fun i e found => by
    rw [there i, Option.some.injEq] at found
    subst found
    trivial
  refine ⟨w.withHeap fun i => (w.heap i).update (property i).toNat
      ⟨.property (next i) (key i) (v i), false⟩, arena', store, fun _ _ h => h,
    ⟨fits.small, fun i => ?_, holds, fun i => ?_, ?_,
      fits.followed.alters (alters_withHeap fun i => .assign (there i) (v i))⟩, rfl,
    fun i => (block i).limit_eq,
    fun _ _ => fits.matched.freezes_replace rel same nofun⟩
  · exact (block i).size_eq.trans (fits.size i)
  · obtain ⟨lower, key, -⟩ := (fits.good i).admits _ _ (there i)
    exact (fits.good i).replace (there i) trivial
      ⟨lower, key, related.types fits.matched i, related.isPlain plain i⟩
  · refine fits.matched.replace rel same
      ⟨next, key, v, _, text, tag, fun i => ?_, head, lists, string, related, plain⟩
    exact (Heap.entity?_update (there i) (same i _ (there i)) _).trans (if_pos rfl)

end World.Fits

end ArenaScript.Lockstep
