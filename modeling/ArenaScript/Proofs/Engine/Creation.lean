import ArenaScript.Proofs.Arena.Typing
import ArenaScript.Proofs.Engine.Entities

/-!
# New engines

A new engine over a block of at most `2 ^ 29` bytes is sound.  Its heap is the
global scope alone.

Main results:

- `Engine.initial_sound`: the engine before any choice is made.
- `Engine.create?_eq`: what an engine that is created differs in.
- `Engine.littered_sound`: a small engine with garbage below a live object.
-/

namespace ArenaScript

/-- The heap of a new engine: the global scope, an object without properties. -/
def Heap.blank : Heap := [⟨.object 0 0, false⟩]

namespace Arena

theorem addPages_eq (n k : Nat) :
    addPages n ⟨Array.replicate k 0⟩ = ⟨Array.replicate (4096 * n + k) 0⟩ := by
  induction n generalizing k with
  | zero => rw [Nat.mul_zero, Nat.zero_add, addPages]
  | succ n ih =>
    have page : (⟨Array.replicate k 0⟩ : ByteArray) ++ (⟨Array.replicate 4096 0⟩ : ByteArray)
        = ⟨Array.replicate (k + 4096) 0⟩ := by
      ext1
      rw [ByteArray.data_append]
      exact Array.replicate_append_replicate
    rw [addPages, page, ih]
    congr 2
    omega

theorem blank_bytes (length : Nat) (limit : UInt32) :
    (blank length limit).bytes = ⟨Array.replicate length 0⟩ := by
  have first : ByteArray.emptyWithCapacity length ++ ⟨Array.replicate (length % 4096) 0⟩
      = (⟨Array.replicate (length % 4096) 0⟩ : ByteArray) := ByteArray.empty_append
  rw [blank, first, addPages_eq, Nat.div_add_mod]

/-- A block of zero bytes holds nothing but zeros. -/
theorem get!_zeros (n i : Nat) : ByteArray.get! ⟨Array.replicate n 0⟩ i = 0 := by
  show (Array.replicate n (0 : UInt8))[i]! = 0
  by_cases inside : i < n
  · rw [getElem!_pos _ i (by simpa using inside), Array.getElem_replicate]
  · rw [getElem!_neg _ i (by simpa using inside)]
    rfl

theorem word32_zeros (n i : Nat) : word32 ⟨Array.replicate n 0⟩ i = 0 := by
  simp only [word32, get!_zeros]
  decide

end Arena

namespace Heap

theorem blank_isObject : blank.IsObject 0 := ⟨0, 0, rfl⟩

theorem entity?_blank {o : Nat} {e : Entity} (found : blank.entity? o = some e) :
    o = 0 ∧ e = .object 0 0 := by
  rcases entity?_append_cases (h := []) found with old | ⟨here, rfl⟩
  · cases old
  · exact ⟨here, rfl⟩

theorem blank_wellFormed : blank.WellFormed where
  clear := by
    intro r mem
    rw [List.mem_singleton.mp mem]
  origin := blank_isObject
  admits := by
    intro o e found
    obtain ⟨here, rfl⟩ := entity?_blank found
    obtain rfl : o = 0 := UInt32.toNat_inj.mp here
    exact ⟨.inl rfl, blank_isObject, .inr ⟨rfl, rfl⟩⟩

/-- A number refers to nothing. -/
theorem types_zero (h : Heap) : h.Types .zero ∧ Value.zero.IsPlain := by
  have kind : Value.zero.kind = .number := by decide
  refine ⟨⟨?_, ?_⟩, ?_, ?_⟩
  · intro entity
    rw [Value.isEntity, kind] at entity
    cases entity
  · rw [kind]
    trivial
  · rw [kind]
    decide
  · rw [kind]
    decide

end Heap

namespace Engine

variable {length : Nat}

theorem toNat_capacityOf (small : length ≤ 2 ^ 29) :
    (capacityOf length).toNat = length / 8 * 8 := by
  have eight : (8 : UInt32).toNat = 8 := by decide
  have whole : (UInt32.ofNat length).toNat = length :=
    UInt32.toNat_ofNat_of_lt' (by simp only [UInt32.size]; omega)
  rw [capacityOf, UInt32.toNat_mul, UInt32.toNat_div, eight, whole, Nat.mod_eq_of_lt (by omega)]

theorem initial_bytes (length : Nat) : (initial length).arena.bytes = ⟨Array.replicate length 0⟩ :=
  Arena.blank_bytes length (capacityOf length)

theorem size_initial (length : Nat) : (initial length).arena.bytes.size = length := by
  rw [initial_bytes]
  exact Array.size_replicate

/-- The block of a new engine holds the global scope. -/
theorem initial_holds (small : length ≤ 2 ^ 29) (room : 8 ≤ length) :
    (initial length).arena.Holds .blank [] := by
  have capacity := toNat_capacityOf small
  have eight : Arena.objectSize.toNat = 8 := by decide
  refine ⟨?_, rfl, ?_, ?_, rfl, ?_, ?_, ?_⟩
  · intro o r found
    obtain ⟨rfl, same⟩ := Heap.entity?_blank (o := o) (e := r.entity) (by
      rw [Heap.entity?, found]
      rfl)
    obtain rfl : ⟨.object 0 0, false⟩ = r := Option.some.inj found
    rw [initial_bytes]
    refine ⟨⟨rfl, by decide⟩, ?_, Arena.word32_zeros _ _⟩
    exact (Arena.word32_zeros _ _).trans (by decide)
  · show Arena.objectSize.toNat ≤ (capacityOf length).toNat
    omega
  · intro i v there
    cases there
  · show (capacityOf length).toNat % 8 = 0
    omega
  · rw [size_initial]
    show (capacityOf length).toNat ≤ length
    omega
  · show Arena.objectSize.toNat ≤ 2 ^ 29
    omega

/-- A new engine is sound. -/
theorem initial_sound (small : length ≤ 2 ^ 29) (room : 8 ≤ length) :
    (initial length).Sound .blank [] where
  holds := initial_holds small room
  heap := Heap.blank_wellFormed
  scope := Heap.blank_isObject
  pinned := .inl rfl
  result := Heap.types_zero _
  roots := by
    intro v mem
    cases mem
  scratch := by
    intro v mem
    cases mem

/-- A choice changes neither the arena nor a register that refers to it. -/
theorem configure_eq (e : Engine) (s : Setting) :
    ∃ threshold maxDepth tracing, e.configure s
      = { e with threshold := threshold, maxDepth := maxDepth, tracing := tracing } := by
  cases s with
  | collectRatio bits =>
    by_cases ratio : isRatio bits
    · exact ⟨ratioOf e.arena.limit bits, e.maxDepth, e.tracing, by simp only
        [configure, if_pos ratio]⟩
    · exact ⟨e.threshold, e.maxDepth, e.tracing, by simp only [configure, if_neg ratio]⟩
  | maxDepth depth => exact ⟨e.threshold, depth, e.tracing, rfl⟩
  | tracing => exact ⟨e.threshold, e.maxDepth, true, rfl⟩

theorem foldl_configure_eq (settings : List Setting) (e : Engine) :
    ∃ threshold maxDepth tracing, settings.foldl configure e
      = { e with threshold := threshold, maxDepth := maxDepth, tracing := tracing } := by
  induction settings generalizing e with
  | nil => exact ⟨e.threshold, e.maxDepth, e.tracing, rfl⟩
  | cons s settings ih =>
    obtain ⟨threshold, maxDepth, tracing, first⟩ := configure_eq e s
    obtain ⟨threshold', maxDepth', tracing', rest⟩ := ih (e.configure s)
    refine ⟨threshold', maxDepth', tracing', ?_⟩
    rw [List.foldl_cons, rest, first]

/-- An engine without settings. -/
theorem create?_nil (enough : ¬ capacityOf length < leastCapacity) :
    create? length [] = some (initial length) :=
  if_neg enough

/-- A block too small for the global scope is refused. -/
theorem create?_eq {settings : List Setting} {e : Engine}
    (small : length ≤ 2 ^ 29) (made : create? length settings = some e) :
    8 ≤ length ∧ ∃ threshold maxDepth tracing, e
      = { initial length with
          threshold := threshold, maxDepth := maxDepth, tracing := tracing } := by
  rw [create?] at made
  split at made
  · cases made
  next enough =>
    rw [UInt32.lt_iff_toNat_lt, toNat_capacityOf small] at enough
    have eight : leastCapacity.toNat = 8 := by decide
    obtain ⟨threshold, maxDepth, tracing, whole⟩ := foldl_configure_eq settings (initial length)
    exact ⟨by omega, threshold, maxDepth, tracing, (Option.some.inj made).symm.trans whole⟩

/-! ## An engine with garbage -/

/-- Makes a string that nobody refers to, and above it an object that becomes
the last returned value. -/
def litter : Action Unit := do
  let _ ← newString (Bytes.ofString "ab")
  let object ← newObject 0
  modify fun e => { e with result := object }

/-- The heap after that. -/
def littered : Heap :=
  Heap.blank ++ [⟨.string (Bytes.ofString "ab"), false⟩] ++ [⟨.object 0 0, false⟩]

theorem littered_sound :
    ∃ e, litter (initial 64) = .ok ((), e) ∧ e.result = .ref .object 16
      ∧ e.arena.bytes.size = 64 ∧ e.Sound littered [] := by
  have holds := @initial_holds 64 (by decide) (by decide)
  have full : (initial 64).arena.limit.toNat = 64 := by decide
  obtain ⟨r, string, grown⟩ := holds.newString?_eq (by decide)
    (show (Bytes.ofString "ab").size < 2 ^ 31 by decide)
  rcases r with _ | ⟨o, a⟩
  · exact absurd grown (by rw [Arena.Grows, full]; decide)
  obtain ⟨-, holds, block⟩ := grown
  have used : a.used.toNat = 16 := holds.extent_eq.symm.trans (by decide)
  obtain ⟨r, object, grown⟩ := holds.newObject?_eq (by rw [block.limit_eq]; decide) 0
  rcases r with _ | ⟨o', a'⟩
  · exact absurd grown (by rw [Arena.Grows, block.limit_eq, full, used]; decide)
  obtain ⟨rfl, holds, block'⟩ := grown
  obtain same : a.used = 16 := UInt32.toNat_inj.mp used
  refine ⟨{ initial 64 with arena := a', result := .ref .object a.used }, ?_, by rw [same],
    block'.size_eq.trans (block.size_eq.trans (size_initial 64)), ?_⟩
  · simp [litter, newString_eq, newObject_eq, adopt, string, object, bind, StateT.bind, Except.bind,
      modify, modifyGet, MonadStateOf.modifyGet, StateT.modifyGet, pure, Except.pure]
  · have first := Heap.blank_wellFormed.append (o := 8) (e := .string (Bytes.ofString "ab"))
      (by decide) trivial
    have second := first.append (o := 16) (e := .object 0 0) (by decide)
      ⟨.inl rfl, first.origin, .inl (by decide)⟩
    have there : littered.IsObject 16 := ⟨0, 0, rfl⟩
    refine ⟨holds, second, second.origin, .inl rfl, ⟨⟨?_, ?_⟩, ?_, ?_⟩, ?_, ?_⟩
    · intro entity
      rw [Value.kind_ref, Value.offset_ref]
    · rw [Value.kind_ref, Value.offset_ref, same]
      exact there
    · rw [Value.kind_ref]
      decide
    · rw [Value.kind_ref]
      decide
    · intro v mem
      cases mem
    · intro v mem
      cases mem

end Engine

end ArenaScript
