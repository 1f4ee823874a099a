import ArenaScript.Evaluate.Call
import ArenaScript.Evaluate.Literal
import ArenaScript.Proofs.Arena.Allocation

/-!
# New entities of an engine

An engine reserves room for an entity first and fills it then.  That is the same as
an arena with a new record, which the engine takes over, or a failure if there is none.

Main definitions:

- `Arena.make?`: an arena with a new record, if there is room for it.
- `Engine.adopt`: such an arena is taken over.

Main results:

- `Engine.newString_eq`, `Engine.newObject_eq`, `Engine.newProperty_eq`,
  `Engine.place_closeString`: the entities that an engine makes.
- `Routine.pushArgument_eq`: words of the scratch stack.
-/

namespace ArenaScript

namespace Arena

/-- Reserves a number of bytes and fills them, if there is room. -/
def make? (n : UInt32) (fill : UInt32 → Arena → Except Halt Arena) (a : Arena) :
    Except Halt (Option (UInt32 × Arena)) :=
  match a.alloc? n with
  | none => .ok none
  | some (offset, a) => (fill offset a).map fun a => some (offset, a)

theorem newString?_eq_make? (text : ByteArray) (a : Arena) :
    a.newString? text = a.make? (4 + (UInt32.ofNat text.size + 1)) (putString text) := by
  simp only [newString?, newEntity?, make?, putString]
  cases a.alloc? (4 + (UInt32.ofNat text.size + 1)) with
  | none => rfl
  | some r =>
    obtain ⟨o, a⟩ := r
    simp only [bind, Except.bind, Except.map]
    cases a.store32 o (stringHeader (UInt32.ofNat text.size)) with
    | error h => rfl
    | ok a₁ =>
      simp only [pure, Except.pure]
      cases a₁.write (o + 4).toNat text <;> rfl

theorem newStringInPlace?_eq_make? (length : UInt32) (a : Arena) :
    a.newStringInPlace? length = a.make? (4 + (length + 1)) (closeString length) := by
  simp only [newStringInPlace?, newEntity?, make?, closeString]
  cases a.alloc? (4 + (length + 1)) with
  | none => rfl
  | some r =>
    obtain ⟨o, a⟩ := r
    simp only [bind, Except.bind, Except.map]
    cases a.store32 o (stringHeader length) <;> rfl

theorem newObject?_eq_make? (parent : UInt32) (a : Arena) :
    a.newObject? parent = a.make? (4 + 4) (putObject parent) := by
  simp only [newObject?, newEntity?, make?, putObject]
  cases a.alloc? (4 + 4) with
  | none => rfl
  | some r =>
    obtain ⟨o, a⟩ := r
    simp only [bind, Except.bind, Except.map]
    cases a.store32 o 0 <;> rfl

theorem newProperty?_eq_make? {object key header : UInt32} {value : Value} {a : Arena}
    (load : a.load32 object = .ok header) : a.newProperty? object key value
      = a.make? (4 + 12) (putProperty object key (headerLink header) value) := by
  simp only [newProperty?, newEntity?, make?, putProperty, load]
  cases a.alloc? (4 + 12) with
  | none => rfl
  | some r =>
    obtain ⟨o, a⟩ := r
    simp only [bind, Except.bind, Except.map]
    cases a.store32 o (headerLink header ||| 1) with
    | error h => rfl
    | ok a₁ =>
      simp only [pure, Except.pure]
      cases a₁.store32 (o + 4) key with
      | error h => rfl
      | ok a₂ =>
        dsimp only
        cases a₂.store64 (o + 8) value <;> rfl

end Arena

namespace Engine

/-- Takes over an arena with a new entity, or fails if there is none. -/
def adopt (kind : Kind) (new : Arena → Except Halt (Option (UInt32 × Arena))) :
    Action Value := fun e =>
  match new e.arena with
  | .error h => .error h
  | .ok none => fail .outOfMemory e
  | .ok (some (offset, arena)) => .ok (.ref kind offset, { e with arena := arena })

theorem place_eq (kind : Kind) (n : UInt32) (fill : UInt32 → Arena → Except Halt Arena) :
    place kind n fill = adopt kind (·.make? n fill) := by
  funext e
  rw [place, adopt, Arena.make?]
  cases e.arena.alloc? n with
  | none => rfl
  | some r =>
    obtain ⟨o, a⟩ := r
    simp only [changeArena, bind, StateT.bind, Except.bind]
    cases fill o a <;> rfl

theorem newString_eq (text : ByteArray) :
    newString text = adopt .string (·.newString? text) := by
  simp only [newString, place_eq, Arena.newString?_eq_make?]

theorem place_closeString (length : UInt32) :
    place .string (4 + (length + 1)) (Arena.closeString length)
      = adopt .string (·.newStringInPlace? length) := by
  simp only [place_eq, Arena.newStringInPlace?_eq_make?]

theorem newObject_eq (parent : UInt32) :
    newObject parent = adopt .object (·.newObject? parent) := by
  simp only [newObject, place_eq, Arena.newObject?_eq_make?]

theorem newProperty_eq (object key value : Value) : newProperty object key value
    = adopt .property (·.newProperty? object.offset key.offset value) := by
  funext e
  simp only [newProperty, place_eq, readArena, Arena.firstProperty, bind, StateT.bind, Except.bind,
    Functor.map, Except.map]
  cases load : e.arena.load32 object.offset with
  | error h => simp only [adopt, Arena.newProperty?, load, bind, Except.bind]
  | ok header => simp only [adopt, Arena.newProperty?_eq_make? load]

end Engine

theorem Routine.pushArgument_eq (v : Value) (e : Engine) :
    pushArgument v e = match e.arena.push? v with
      | .error h => .error h
      | .ok none => .ok (false, e)
      | .ok (some arena) => .ok (true, { e with arena := arena }) := by
  rw [pushArgument, Arena.push?]
  by_cases room : e.arena.hasRoom = true
  · simp only [room, if_true, Engine.changeArena, bind, StateT.bind, Except.bind, Functor.map,
      Except.map]
    cases e.arena.push v <;> rfl
  · simp only [room]
    rfl

end ArenaScript
