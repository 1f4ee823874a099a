import ArenaScript.Shell.Outline
import ArenaScript.Proofs.Host.Store
import ArenaScript.Proofs.Lockstep.Rendering

/-!
# What an object shows

An object unfolds into a tree: its properties with the newest first, those of the
objects inside it, and so on down to the values without parts.  The heap may be
cyclic, so an object that is one of its own ancestors is cut short.  An object that
is merely shared is unfolded wherever it stands.  No path visits an object twice,
so the tree is finite.  The text of an object and its outline are two ways to write
down this one tree.

Main definitions:

- `Display`: the trees.
- `Display.text`, `Display.lines`: the two ways to write them down.
- `Heap.Unfolds`: the tree of a value inside the objects of a path.

Main results:

- `Heap.Unfolds.unique`: a value has at most one tree.
- `Engine.exists_unfolds`: an object has one, and both printers find it.
- `Engine.printers_show_one_tree`: the same from the outside.
-/

namespace ArenaScript

/-- What a value shows. -/
inductive Display where
  /-- A value without parts. -/
  | leaf (text : ByteArray)
  /-- An object inside itself. -/
  | circular
  /-- An object with its keys, the newest first. -/
  | object (items : List (ByteArray × Display))

namespace Display

mutual

/-- The text of a tree, between braces. -/
def text : Display → ByteArray
  | leaf text => text
  | circular => Bytes.ofString "[Circular]"
  | object items =>
    Bytes.ofString "\x7b" ++ Bytes.joinWith (Bytes.ofString ",") (texts items) ++ Bytes.ofString "\x7d"

/-- The texts of the properties of an object. -/
def texts : List (ByteArray × Display) → List ByteArray
  | [] => []
  | (key, shown) :: rest => (Arena.quote key ++ Bytes.ofString ":" ++ text shown) :: texts rest

end

/-- The line of a property. -/
def label (key : ByteArray) : Display → ByteArray
  | leaf text => key ++ Bytes.ofString " = " ++ text
  | circular => key ++ Bytes.ofString " = [Circular]"
  | object _ => key

mutual

/-- The lines below that of a property. -/
def inner : Nat → Display → List Shell.OutlineItem
  | level, object items => lines level items
  | _, _ => []

/-- The properties of an object in preorder, one to a line, with their levels. -/
def lines : Nat → List (ByteArray × Display) → List Shell.OutlineItem
  | _, [] => []
  | level, (key, shown) :: rest =>
    ⟨level, shown.label key⟩ :: (inner (level + 1) shown ++ lines level rest)

end

end Display

namespace Heap

/-- The text of a value without parts. -/
def Spells (h : Heap) (v : Value) (text : ByteArray) : Prop :=
  match v.kind with
  | .object => False
  | .string => ∃ s, h.entity? v.offset.toNat = some (.string s) ∧ text = Arena.quote s
  | .function =>
    ∃ s, h.entity? v.offset.toNat = some (.string s) ∧ text = Bytes.ofString "function" ++ s
  | _ => text = Arena.renderPlain v

mutual

/-- The tree of a value inside the objects of a path. -/
inductive Unfolds (h : Heap) : List UInt32 → Value → Display → Prop
  | leaf {path : List UInt32} {v : Value} {text : ByteArray} (spells : h.Spells v text) :
      Unfolds h path v (.leaf text)
  | circular {path : List UInt32} {v : Value} (kind : v.kind = .object) (inside : v.offset ∈ path) :
      Unfolds h path v .circular
  | object {path : List UInt32} {v : Value} {items : List (ByteArray × Value)}
      {shown : List (ByteArray × Display)} (kind : v.kind = .object) (outside : v.offset ∉ path)
      (lists : h.ListsOf v.offset items) (each : UnfoldsAll h (v.offset :: path) items shown) :
      Unfolds h path v (.object shown)

/-- The trees of the values of a property list. -/
inductive UnfoldsAll (h : Heap) :
    List UInt32 → List (ByteArray × Value) → List (ByteArray × Display) → Prop
  | nil {path : List UInt32} : UnfoldsAll h path [] []
  | cons {path : List UInt32} {key : ByteArray} {v : Value} {d : Display}
      {items : List (ByteArray × Value)} {shown : List (ByteArray × Display)}
      (first : Unfolds h path v d) (rest : UnfoldsAll h path items shown) :
      UnfoldsAll h path ((key, v) :: items) ((key, d) :: shown)

end

/-- No property holds an error. -/
def FreeOfErrors (h : Heap) : Prop :=
  ∀ (o next key : UInt32) (value : Value),
    h.entity? o.toNat = some (.property next key value) → value.isError = false

/-! ## One tree at most -/

variable {h : Heap}

theorem Spells.unique {v : Value} {text text' : ByteArray} (spells : h.Spells v text)
    (spells' : h.Spells v text') : text = text' := by
  unfold Spells at spells spells'
  split at spells
  · exact spells.elim
  iterate 2
    next kind =>
      simp only [kind] at spells'
      obtain ⟨s, found, rfl⟩ := spells
      obtain ⟨s', found', rfl⟩ := spells'
      rw [found, Option.some.injEq, Entity.string.injEq] at found'
      rw [found']
  next object string function =>
    split at spells'
    next kind => exact (object kind).elim
    next kind => exact (string kind).elim
    next kind => exact (function kind).elim
    next => rw [spells, spells']

theorem Spells.kind_ne {v : Value} {text : ByteArray} (spells : h.Spells v text) :
    v.kind ≠ .object := by
  intro kind
  simp only [Spells, kind] at spells

theorem Lists.unique {o : UInt32} {items items' : List (ByteArray × Value)} (lists : h.Lists o items)
    (lists' : h.Lists o items') : items = items' := by
  induction lists generalizing items' with
  | nil =>
    cases lists' with
    | nil => rfl
    | cons there => exact (there rfl).elim
  | cons there found name _ _ ih =>
    cases lists' with
    | nil => exact (there rfl).elim
    | cons _ found' name' _ rest =>
      rw [found, Option.some.injEq, Entity.property.injEq] at found'
      obtain ⟨rfl, rfl, rfl⟩ := found'
      rw [name, Option.some.injEq, Entity.string.injEq] at name'
      rw [name', ih rest]

theorem ListsOf.unique {o : UInt32} {items items' : List (ByteArray × Value)}
    (lists : h.ListsOf o items) (lists' : h.ListsOf o items') : items = items' := by
  obtain ⟨first, parent, found, lists⟩ := lists
  obtain ⟨first', parent', found', lists'⟩ := lists'
  rw [found, Option.some.injEq, Entity.object.injEq] at found'
  rw [← found'.1] at lists'
  exact lists.unique lists'

mutual

/-- A value has at most one tree. -/
theorem Unfolds.unique {path : List UInt32} {v : Value} {d d' : Display}
    (unfolds : h.Unfolds path v d) (unfolds' : h.Unfolds path v d') : d = d' := by
  cases unfolds with
  | leaf spells =>
    cases unfolds' with
    | leaf spells' => rw [spells.unique spells']
    | circular kind => exact (spells.kind_ne kind).elim
    | object kind => exact (spells.kind_ne kind).elim
  | circular kind inside =>
    cases unfolds' with
    | leaf spells => exact (spells.kind_ne kind).elim
    | circular => rfl
    | object _ outside => exact (outside inside).elim
  | object kind outside lists each =>
    cases unfolds' with
    | leaf spells => exact (spells.kind_ne kind).elim
    | circular _ inside => exact (outside inside).elim
    | object _ _ lists' each' =>
      obtain rfl := lists.unique lists'
      rw [each.unique each']

theorem UnfoldsAll.unique {path : List UInt32} {items : List (ByteArray × Value)}
    {shown shown' : List (ByteArray × Display)} (each : h.UnfoldsAll path items shown)
    (each' : h.UnfoldsAll path items shown') : shown = shown' := by
  cases each with
  | nil =>
    cases each'
    rfl
  | cons first rest =>
    cases each' with
    | cons first' rest' => rw [first.unique first', rest.unique rest']

end

/-! ## One tree at least, found by both printers -/

/-- What holds of the values of all properties holds along a property list. -/
theorem Lists.forall_mem {P : Value → Prop} (all : ∀ (o : UInt32) (next key : UInt32)
    (value : Value),
      h.entity? o.toNat = some (.property next key value) → P value)
    {o : UInt32} {items : List (ByteArray × Value)} (lists : h.Lists o items) :
    ∀ item ∈ items, P item.2 := by
  induction lists with
  | nil => nofun
  | cons _ found _ _ _ ih => exact List.forall_mem_cons.mpr ⟨all _ _ _ _ found, ih⟩

end Heap

theorem Display.lines_cons (level : Nat) (key : ByteArray) (d : Display)
    (rest : List (ByteArray × Display)) :
    lines level ((key, d) :: rest) = lines level [(key, d)] ++ lines level rest := by
  simp [lines]

/-- The lines of a property of an object inside the objects of a path. -/
def Shell.outlineItem (bound : Nat) (path : List Value) (object : Value) (item : ByteArray × Value) :
    Action (List OutlineItem) := do
  if item.2.kind ≠ .object then
    return [⟨path.length, item.1 ++ Bytes.ofString " = " ++ (← Engine.render item.2)⟩]
  else if item.2 ∈ object :: path then
    return [⟨path.length, item.1 ++ Bytes.ofString " = [Circular]"⟩]
  else
    return ⟨path.length, item.1⟩ :: (← outlineWithin bound (object :: path) item.2)

theorem Shell.outlineWithin_succ (bound : Nat) (path : List Value) (object : Value) :
    outlineWithin (bound + 1) path object = do
      let items ← (← Engine.listProperties object).mapM (outlineItem bound path object)
      return items.flatten := rfl

/-- Steps that go on with what other steps give. -/
theorem mapM_eq_of_mapM {α β γ : Type} {f : α → Except Halt β} {g : α → Except Halt γ}
    {k : β → Except Halt γ} (each : ∀ a b, f a = .ok b → g a = k b) {list : List α} {items : List β}
    (run : list.mapM f = .ok items) : list.mapM g = items.mapM k := by
  induction list generalizing items with
  | nil =>
    cases run
    rfl
  | cons a list ih =>
    rw [List.mapM_cons] at run
    cases first : f a with
    | error halt =>
      rw [first] at run
      cases run
    | ok b =>
      cases rest : list.mapM f with
      | error halt =>
        rw [first, rest] at run
        cases run
      | ok items' =>
        rw [first, rest] at run
        cases run
        rw [List.mapM_cons, List.mapM_cons, each a b first, ih rest]

namespace Engine

variable {e : Engine} {h : Heap} {path : List Value} {bound : Nat}

section

variable (stores : e.arena.Stores h) (good : h.WellFormed)
include stores good

/-- The texts of the properties of an object, told by the list. -/
theorem renderItems_eq {o : UInt32}
    {items : List (ByteArray × Value)} (lists : h.ListsOf o items) (depth : Nat)
    (path : List UInt32) :
    (do (← e.arena.properties o).mapM (e.arena.renderItem depth path))
      = items.mapM fun item => do
        return Arena.quote item.1 ++ Bytes.ofString ":" ++ (← e.arena.renderWithin depth path item.2) := by
  obtain ⟨first, parent, found, lists⟩ := lists
  have enough : first.toNat < e.arena.chainBound := stores.lists_lt_chainBound lists
  obtain ⟨properties, read, each⟩ := stores.propertiesFrom_eq good lists enough
  rw [Arena.properties, stores.firstProperty_eq (good.at?_eq found), ok_bind, read,
    ok_bind]
  refine mapM_eq_of_mapM (fun p item run => ?_) each
  cases key : e.arena.propertyKey p with
  | error halt =>
    rw [key] at run
    cases run
  | ok k =>
    cases name : e.arena.stringBytes k with
    | error halt =>
      rw [key, ok_bind, name] at run
      cases run
    | ok text =>
      cases value : e.arena.propertyValue p with
      | error halt =>
        rw [key, ok_bind, name, ok_bind, value] at run
        cases run
      | ok v =>
        rw [key, ok_bind, name, ok_bind, value] at run
        cases run
        rw [Arena.renderItem, key, ok_bind, name, ok_bind, value, ok_bind]

/-- A value without parts has the same text everywhere. -/
theorem exists_spells {v : Value} (typed : h.Types v)
    (kind : v.kind ≠ .object) (fine : v.isError = false) :
    ∃ text, h.Spells v text ∧ (∀ depth path, e.arena.renderWithin (depth + 1) path v = .ok text)
      ∧ render v e = .ok (text, e) := by
  have whole : ∀ {text : ByteArray},
      (∀ depth path, e.arena.renderWithin (depth + 1) path v = .ok text) →
      render v e = .ok (text, e) := by
    intro text within
    simp only [render, fine, Bool.false_eq_true, if_false, readArena, Arena.render, within]
  obtain ⟨-, there⟩ := typed
  unfold Heap.Spells
  cases here : v.kind with
  | object => exact (kind here).elim
  | string =>
    obtain ⟨s, found⟩ : h.IsString v.offset := by simpa only [here] using there
    have within : ∀ depth path, e.arena.renderWithin (depth + 1) path v = .ok (Arena.quote s) := by
      intro depth path
      rw [Arena.renderWithin, here]
      simp only [stores.stringBytes_eq (good.at?_eq found)]
      rfl
    exact ⟨_, ⟨s, found, rfl⟩, within, whole within⟩
  | function =>
    obtain ⟨s, found⟩ : h.IsString v.offset := by simpa only [here] using there
    have within : ∀ depth path, e.arena.renderWithin (depth + 1) path v
        = .ok (Bytes.ofString "function" ++ s) := by
      intro depth path
      rw [Arena.renderWithin, here]
      simp only [stores.stringBytes_eq (good.at?_eq found)]
      rfl
    exact ⟨_, ⟨s, found, rfl⟩, within, whole within⟩
  | _ =>
    have within : ∀ depth path, e.arena.renderWithin (depth + 1) path v
        = .ok (Arena.renderPlain v) := by
      intro depth path
      rw [Arena.renderWithin, here]
    exact ⟨_, rfl, within, whole within⟩

/-- Both printers find the tree of an object inside the objects of a path. -/
structure Prints (e : Engine) (h : Heap) (bound : Nat) (path : List Value) (v : Value)
    (shown : List (ByteArray × Display)) : Prop where
  unfolds : h.Unfolds (path.map Value.offset) v (.object shown)
  text : e.arena.renderWithin bound (path.map Value.offset) v = .ok (Display.object shown).text
  lines : Shell.outlineWithin bound path v e = .ok (Display.lines path.length shown, e)

/-- Both printers find the tree of the value of a property. -/
structure PrintsItem (e : Engine) (h : Heap) (bound : Nat) (path : List Value) (object : Value)
    (item : ByteArray × Value) (d : Display) : Prop where
  unfolds : h.Unfolds ((object :: path).map Value.offset) item.2 d
  text : e.arena.renderWithin bound ((object :: path).map Value.offset) item.2 = .ok d.text
  lines : Shell.outlineItem bound path object item e
    = .ok (Display.lines path.length [(item.1, d)], e)

/-- The objects of a path are different objects of the heap. -/
structure IsPath (h : Heap) (path : List Value) : Prop where
  objects : ∀ v ∈ path, h.Types v ∧ v.kind = .object
  distinct : path.Nodup

/-- A path visits no object twice, so it is no longer than the block. -/
theorem length_path_le (isPath : IsPath h path) : path.length ≤ e.arena.bytes.size := by
  have apart : (path.map Value.offset).Nodup :=
    List.Nodup.map_on (fun v mem v' mem' same =>
      (isPath.objects v mem).1.object_ext (isPath.objects v' mem').1 (isPath.objects v mem).2
        (isPath.objects v' mem').2 same) isPath.distinct
  rw [← List.length_map Value.offset]
  refine Lockstep.length_le_of_nodup apart fun o mem => ?_
  obtain ⟨v, here, rfl⟩ := List.mem_map.mp mem
  obtain ⟨first, parent, found⟩ := (isPath.objects v here).1.isObject (isPath.objects v here).2
  have fits := stores.record_le_size (good.at?_eq found)
  have positive := Record.eight_le_size ⟨.object first parent, false⟩
  omega

omit stores good in
/-- An object is on a path as a value if it is there by its offset. -/
theorem IsPath.offset_mem_iff (isPath : IsPath h path) {v : Value}
    (typed : h.Types v) (kind : v.kind = .object) : v.offset ∈ path.map Value.offset ↔ v ∈ path := by
  constructor
  · intro mem
    obtain ⟨p, here, same⟩ := List.mem_map.mp mem
    obtain ⟨typed', kind'⟩ := isPath.objects p here
    rwa [← typed'.object_ext typed kind' kind same]
  · exact fun mem => List.mem_map.mpr ⟨v, mem, rfl⟩

/-- What both printers say of one property. -/
theorem exists_unfolds_item {object : Value} (isPath : IsPath h (object :: path))
    (deep : e.arena.bytes.size + 1 ≤ bound + path.length)
    (ih : ∀ v, h.Types v → v.kind = .object → v ∉ object :: path →
      ∃ shown, e.Prints h bound (object :: path) v shown)
    {item : ByteArray × Value} (typed : h.Types item.2) (fine : item.2.isError = false) :
    ∃ d, e.PrintsItem h bound path object item d := by
  obtain ⟨bound, rfl⟩ : ∃ n, bound = n + 1 := by
    have short := length_path_le stores good isPath
    rw [List.length_cons] at short
    exact ⟨bound - 1, by omega⟩
  by_cases kind : item.2.kind = .object
  · by_cases inside : item.2 ∈ object :: path
    · have there := (isPath.offset_mem_iff typed kind).mpr inside
      refine ⟨.circular, .circular kind there, ?_, ?_⟩
      · rw [Arena.renderWithin, kind]
        simp only [List.contains_iff_mem.mpr there, if_true, Display.text]
      · rw [Shell.outlineItem, if_neg (not_not.mpr kind), if_pos inside]
        rfl
    · obtain ⟨shown, unfolds, text, lines⟩ := ih item.2 typed kind inside
      refine ⟨.object shown, unfolds, text, ?_⟩
      rw [Shell.outlineItem, if_neg (not_not.mpr kind), if_neg inside]
      simp only [Action.runs, lines]
      show Except.ok (_, e) = _
      simp [Display.lines, Display.label, Display.inner]
  · obtain ⟨text, spells, within, whole⟩ := exists_spells stores good typed kind fine
    refine ⟨.leaf text, .leaf spells, within _ _, ?_⟩
    rw [Shell.outlineItem, if_pos kind]
    simp only [Action.runs, whole]
    rfl

omit stores good in
/-- What both printers say of the properties of an object. -/
theorem exists_unfolds_items {object : Value} {items : List (ByteArray × Value)}
    (each : ∀ item ∈ items, ∃ d, e.PrintsItem h bound path object item d) :
    ∃ shown, h.UnfoldsAll ((object :: path).map Value.offset) items shown
      ∧ (items.mapM fun item => do
          return Arena.quote item.1 ++ Bytes.ofString ":"
            ++ (← e.arena.renderWithin bound ((object :: path).map Value.offset) item.2))
        = .ok (Display.texts shown)
      ∧ ∃ lines, (items.mapM (Shell.outlineItem bound path object)) e = .ok (lines, e)
        ∧ lines.flatten = Display.lines path.length shown := by
  induction items with
  | nil => exact ⟨[], .nil, rfl, [], rfl, rfl⟩
  | cons item items ih =>
    obtain ⟨key, v⟩ := item
    obtain ⟨d, unfolds, text, line⟩ := each _ (List.mem_cons_self ..)
    obtain ⟨shown, unfoldsAll, texts, lines, outlined, flat⟩ :=
      ih fun item mem => each item (List.mem_cons_of_mem _ mem)
    refine ⟨(key, d) :: shown, .cons unfolds unfoldsAll, ?_,
      Display.lines path.length [(key, d)] :: lines, ?_, ?_⟩
    · rw [List.mapM_cons, text, ok_bind, texts]
      rfl
    · rw [List.mapM_cons]
      simp only [bind, StateT.bind, Except.bind, line, outlined]
      rfl
    · rw [List.flatten_cons, flat, ← Display.lines_cons]

/-- An object that is not on a path has a tree there, and both printers find it. -/
theorem exists_unfolds (free : h.FreeOfErrors)
    (isPath : IsPath h path)
    (deep : e.arena.bytes.size + 2 ≤ bound + path.length) {v : Value} (typed : h.Types v)
    (kind : v.kind = .object) (outside : v ∉ path) : ∃ shown, e.Prints h bound path v shown := by
  have isPath' : IsPath h (v :: path) :=
    ⟨List.forall_mem_cons.mpr ⟨⟨typed, kind⟩, isPath.objects⟩,
      List.nodup_cons.mpr ⟨outside, isPath.distinct⟩⟩
  induction bound generalizing path v with
  | zero =>
    have short := length_path_le stores good isPath
    omega
  | succ bound ih =>
    obtain ⟨items, lists⟩ := good.exists_listsOf (typed.isObject kind)
    have values : ∀ item ∈ items, h.Types item.2 ∧ item.2.isError = false := by
      obtain ⟨first, parent, -, lists⟩ := lists
      exact lists.forall_mem (P := fun v => h.Types v ∧ v.isError = false)
        fun o next key value found =>
          ⟨(good.admits o _ found).2.2.1, free o next key value found⟩
    have each : ∀ item ∈ items, ∃ d, e.PrintsItem h bound path v item d := by
      intro item mem
      refine exists_unfolds_item stores good isPath' (by omega) (fun v' typed' kind' outside' => ?_)
        (values item mem).1 (values item mem).2
      exact ih isPath' (by rw [List.length_cons]; omega) typed' kind' outside'
        ⟨List.forall_mem_cons.mpr ⟨⟨typed', kind'⟩, isPath'.objects⟩,
          List.nodup_cons.mpr ⟨outside', isPath'.distinct⟩⟩
    obtain ⟨shown, unfolds, texts, lines, outlined, flat⟩ := exists_unfolds_items each
    have absent : v.offset ∉ path.map Value.offset :=
      fun mem => outside ((isPath.offset_mem_iff typed kind).mp mem)
    refine ⟨shown, .object kind absent lists unfolds, ?_, ?_⟩
    · rw [Arena.renderWithin_object kind (Bool.eq_false_iff.mpr fun mem =>
        absent (List.contains_iff_mem.mp mem))]
      have run := renderItems_eq stores good lists bound (v.offset :: path.map Value.offset)
      rw [← bind_assoc, run]
      exact congrArg (· >>= _) texts
    · rw [Shell.outlineWithin_succ]
      simp only [bind, StateT.bind, Except.bind, listProperties_eq stores good kind lists, outlined]
      rw [← flat]
      rfl

end

/-- The text of an object and its outline show one and the same tree: the unfolding of
its properties, in which an object is cut short exactly where it is one of its own
ancestors. -/
theorem printers_show_one_tree (stores : e.arena.Stores h) (good : h.WellFormed)
    (free : h.FreeOfErrors) (v : Value) (typed : h.Types v) (kind : v.kind = .object) :
    ∃ shown, (∀ d, h.Unfolds [] v d ↔ d = .object shown)
      ∧ render v e = .ok ((Display.object shown).text, e)
      ∧ Shell.outline v e = .ok (Display.lines 0 shown, e) := by
  have root : IsPath h [] := ⟨nofun, List.nodup_nil⟩
  obtain ⟨shown, unfolds, text, lines⟩ := exists_unfolds stores good free root
    (Nat.le_refl (e.arena.bytes.size + 2)) typed kind List.not_mem_nil
  refine ⟨shown, fun d => ⟨fun other => other.unique unfolds, fun same => same ▸ unfolds⟩, ?_, lines⟩
  have fine : v.isError = false := by
    rw [Value.isError, kind]
    rfl
  simp only [List.map_nil] at text
  simp only [render, fine, Bool.false_eq_true, if_false, readArena, Arena.render, text]

/-! ## A knot -/

/-- Puts an object twice into the global scope, and the global scope into that object. -/
def knot : Action Unit := do
  let key ← newString (Bytes.ofString "k")
  let object ← newObject 0
  let _ ← newProperty (.ref .object 0) key object
  let _ ← newProperty (.ref .object 0) key object
  let _ ← newProperty object key (.ref .object 0)

/-- The engine after that. -/
def knotted : Engine := ((knot (initial 80)).toOption.map (·.2)).getD (initial 80)

/-- The heap after that. -/
def knottedHeap : Heap :=
  [⟨.object 40 0, false⟩, ⟨.string (Bytes.ofString "k"), false⟩, ⟨.object 56 0, false⟩,
    ⟨.property 0 8 (.ref .object 16), false⟩, ⟨.property 24 8 (.ref .object 16), false⟩,
    ⟨.property 0 8 (.ref .object 0), false⟩]

theorem offset_of_at?_knottedHeap {o : Nat} {r : Record} (found : knottedHeap.at? o = some r) :
    o ∈ [0, 8, 16, 24, 40, 56] := by
  have inside : o < 72 := by
    have low : o + r.size ≤ 72 := Heap.at?_le_extent found
    have := r.eight_le_size
    omega
  have all : ∀ o < 72, (knottedHeap.at? o).isSome → o ∈ [0, 8, 16, 24, 40, 56] := by decide +kernel
  exact all o inside (by rw [found]; rfl)

theorem knotted_stores : knotted.arena.Stores knottedHeap := by
  have stored : ∀ o ∈ [0, 8, 16, 24, 40, 56], ∀ r ∈ knottedHeap.at? o,
      r.StoredAt knotted.arena.bytes o := by
    decide +kernel
  obtain ⟨bytes, used⟩ : knotted.arena.bytes.size = 80 ∧ knotted.arena.used = 72 := by
    decide +kernel
  refine ⟨fun o r found => stored o (offset_of_at?_knottedHeap found) r found, ?_, ?_⟩
  · rw [used]
    rfl
  · rw [used, bytes]
    decide

/-- The objects of the heap can be stored. -/
theorem knottedHeap_types {o : UInt32} (object : knottedHeap.IsObject o) :
    knottedHeap.Types (.ref .object o) ∧ (Value.ref .object o).IsPlain := by
  refine ⟨⟨fun _ => by rw [Value.kind_ref, Value.offset_ref], ?_⟩, by simp [Value.IsPlain]⟩
  simp only [Value.kind_ref, Value.offset_ref]
  exact object

theorem knottedHeap_wellFormed : knottedHeap.WellFormed where
  clear := by simp [knottedHeap]
  origin := ⟨40, 0, rfl⟩
  admits := by
    have outer : knottedHeap.IsObject 0 := ⟨40, 0, rfl⟩
    have inner : knottedHeap.IsObject 16 := ⟨56, 0, rfl⟩
    have key : knottedHeap.IsString 8 := ⟨_, rfl⟩
    intro o entity found
    rw [Heap.entity?, Option.map_eq_some_iff] at found
    obtain ⟨r, found, rfl⟩ := found
    have place := offset_of_at?_knottedHeap found
    simp only [List.mem_cons, List.not_mem_nil, or_false] at place
    rcases place with here | here | here | here | here | here
    all_goals rw [here] at found; cases found
    · obtain rfl : o = 0 := UInt32.toNat_inj.mp here
      exact ⟨.inr ⟨_, _, _, rfl⟩, outer, .inr ⟨rfl, rfl⟩⟩
    · trivial
    · obtain rfl : o = 16 := UInt32.toNat_inj.mp here
      exact ⟨.inr ⟨_, _, _, rfl⟩, outer, .inl (by decide)⟩
    · obtain rfl : o = 24 := UInt32.toNat_inj.mp here
      exact ⟨.inl rfl, ⟨key, by decide⟩, knottedHeap_types inner⟩
    · obtain rfl : o = 40 := UInt32.toNat_inj.mp here
      exact ⟨.inr ⟨⟨_, _, _, rfl⟩, by decide⟩, ⟨key, by decide⟩, knottedHeap_types inner⟩
    · obtain rfl : o = 56 := UInt32.toNat_inj.mp here
      exact ⟨.inl rfl, ⟨key, by decide⟩, knottedHeap_types outer⟩

theorem knottedHeap_freeOfErrors : knottedHeap.FreeOfErrors := by
  intro o next key value found
  rw [Heap.entity?, Option.map_eq_some_iff] at found
  obtain ⟨r, found, same⟩ := found
  have place := offset_of_at?_knottedHeap found
  simp only [List.mem_cons, List.not_mem_nil, or_false] at place
  rcases place with here | here | here | here | here | here
  all_goals rw [here] at found; cases found; cases same
  all_goals decide

/-- The shared object is shown in full both times, and the knot is cut where the global
scope comes again. -/
theorem knot_is_cut :
    knotted.arena.Stores knottedHeap ∧ knottedHeap.WellFormed ∧ knottedHeap.FreeOfErrors
    ∧ ∃ shown, (∀ d, knottedHeap.Unfolds [] (.ref .object 0) d ↔ d = .object shown)
      ∧ (Display.object shown).text
        = Bytes.ofString "\x7b\"k\":\x7b\"k\":[Circular]\x7d,\"k\":\x7b\"k\":[Circular]\x7d\x7d"
      ∧ (Display.lines 0 shown).map (fun line => (line.level, line.text))
        = [(0, Bytes.ofString "k"), (1, Bytes.ofString "k = [Circular]"), (0, Bytes.ofString "k"),
          (1, Bytes.ofString "k = [Circular]")] := by
  obtain ⟨shown, unfolds, text, lines⟩ := printers_show_one_tree knotted_stores
    knottedHeap_wellFormed knottedHeap_freeOfErrors (.ref .object 0)
    (knottedHeap_types ⟨40, 0, rfl⟩).1 (by decide)
  have said : (render (.ref .object 0) knotted).toOption.map (·.1) = some (Bytes.ofString
      "\x7b\"k\":\x7b\"k\":[Circular]\x7d,\"k\":\x7b\"k\":[Circular]\x7d\x7d") := by
    decide +kernel
  have listed : (Shell.outline (.ref .object 0) knotted).toOption.map
      (fun r => r.1.map fun line => (line.level, line.text))
      = some [(0, Bytes.ofString "k"), (1, Bytes.ofString "k = [Circular]"), (0, Bytes.ofString "k"),
        (1, Bytes.ofString "k = [Circular]")] := by
    decide +kernel
  rw [text] at said
  rw [lines] at listed
  exact ⟨knotted_stores, knottedHeap_wellFormed, knottedHeap_freeOfErrors, shown, unfolds,
    Option.some.inj said, Option.some.inj listed⟩

end Engine

end ArenaScript
