import ArenaScript.Proofs.Engine.Creation
import ArenaScript.Proofs.Lockstep.Runs

/-!
# Sessions

A session is a host program that runs on a new engine.  Between its requests the
engine is idle: the active scope is the global one, nothing is held for later
and no text is set aside.

Main definitions:

- `Standing.idle`: an engine between the requests of a session.
- `HostProgram.Behaves`, `HostProgram.Follows`: a session and the natives it calls
  keep to the rules, or to any rule.

Main results:

- `Alike.initial`: new engines agree.
- `Alike.evaluated`: the evaluation of a text on its own.
- `HostProgram.Follows.course`: the engine is idle all along.
-/

namespace ArenaScript.Lockstep

open Engine

variable {ι : Type} [Rules ι]

/-! ## New engines -/

/-- The world of new engines: the global scopes are related. -/
def World.initial (ι : Type) (size : Nat) : World ι where
  size := size
  heap := fun _ => .blank
  scratch := fun _ => []
  made := 1
  rel := fun sh a => sh = .object [] ∧ a = fun _ => 0

theorem World.matched_initial (ι : Type) [Rules ι] (size : Nat) :
    (World.initial ι size).Matched where
  origin := ⟨rfl, rfl⟩
  unique := by
    rintro _ _ _ _ i ⟨rfl, rfl⟩ ⟨rfl, rfl⟩ -
    exact ⟨rfl, rfl⟩
  order := by
    rintro _ _ _ _ i ⟨rfl, rfl⟩ ⟨rfl, rfl⟩
    exact iff_of_false (UInt32.lt_irrefl _) (Nat.lt_irrefl _)
  counted := by
    rintro _ _ ⟨rfl, rfl⟩
    exact Nat.one_pos
  full := by
    intro _ i o en found
    obtain ⟨here, -⟩ := Heap.entity?_blank found
    exact ⟨_, _, ⟨rfl, rfl⟩, (UInt32.toNat_inj.mp here).symm⟩
  content := by
    rintro _ _ ⟨rfl, rfl⟩
    exact ⟨fun _ => 0, fun _ => 0, fun _ => rfl, .inl fun _ => rfl, rfl, rfl⟩

/-- An engine between the requests of a session. -/
def Standing.idle (limit : ι → UInt32) : Standing ι where
  registers := ⟨[], none, some (.other .zero)⟩
  ground := ⟨ByteArray.empty, .host ByteArray.empty 0⟩
  roots := []
  scratch := []
  suspended := []
  depth := 0
  evaluations := 0
  limit := limit
  natives := []
  frozen := []

/-- New engines over blocks of one length agree. -/
theorem Alike.initial (unfollowed : Unfollowed ι) {length : Nat} (small : length ≤ 2 ^ 29)
    (room : 8 ≤ length) (threshold : ι → UInt32) (maxDepth : Int) (tracing : ι → Bool) :
    Alike (World.initial ι length) (Standing.idle fun _ => capacityOf length)
      ⟨{}, .empty, maxDepth, #[], Spot.start.unuse⟩
      fun i => { Engine.initial length with
        threshold := threshold i, maxDepth := maxDepth, tracing := tracing i } where
  fits := ⟨small, fun _ => size_initial length, fun _ => initial_holds small room,
    fun _ => Heap.blank_wellFormed, World.matched_initial ι length,
    World.followed_of_unfollowed unfollowed _⟩
  limit := fun _ => rfl
  scope := ⟨rfl, rfl⟩
  pinned := fun _ => rfl
  result := ⟨.other .zero, World.related_other _ (by decide), Tag.isPlain_zero, by
    intro known eq
    exact Option.some.inj eq⟩
  free := nofun
  roots := fun _ => rfl
  scratch := fun _ => rfl
  cursor := ⟨fun _ => rfl, ⟨fun _ => rfl, Source.shows_ofBytes _, fun _ => Nat.two_pow_pos 24⟩,
    (Spot.inside_start _).unuse⟩
  suspended := fun _ => rfl
  depth := fun _ => rfl
  evaluations := fun _ => rfl
  mode := fun _ => rfl
  log := fun _ => rfl
  maxDepth := fun _ => rfl
  natives := fun _ => rfl
  known := List.nil_prefix
  hosted := .inl rfl
  frozen := nofun
  still := .inl rfl

/-! ## Evaluations -/

section

variable [Rules Unit] {w : World Unit} {s : Standing Unit} {c : Current} {e e' : Engine}

/-- A text is evaluated on its own: all is left as it was, the mode and the place
included. -/
theorem Alike.evaluated (alike : Alike w s c fun _ => e) {text : ByteArray}
    (small : Strict Unit → text.size < 2 ^ 24) (spares : s.Spares s.registers.scope)
    (calm : Calm Unit (.evaluate text) e) {o : Value × Engine}
    (performs : (Production.evaluate text).Performs e o) :
    ∃ (w' : World Unit) (c' : Current) (result tag : Tag), Alike w' s c' (fun _ => o.2)
      ∧ c'.mode = c.mode ∧ c'.spot = c.spot ∧ w.Related result (fun _ => e.result)
      ∧ w'.Related result (fun _ => o.2.result) ∧ w'.Related tag (fun _ => o.1) ∧ tag.IsPlain := by
  obtain ⟨r, ends, yields⟩ := Production.performs_iff_ends.mp performs
  obtain ⟨result, before, going⟩ := alike.evaluateText text small spares
  obtain ⟨w', c', tag, v, e', eq, alike', mode, spot, after, related, plain⟩ :=
    going.holds (fun _ _ asks => calm.within (.asked .self asks)) ends
  obtain rfl : r = (.value (v ()), e' ()) := eq ()
  obtain rfl : o = (v (), e' ()) := yields
  exact ⟨w', c', result, tag, alike', mode, spot, before, after, related, plain⟩

end

end ArenaScript.Lockstep

/-! ## Sessions -/

namespace ArenaScript

/-- A session keeps to a rule, and so do the natives it calls. -/
def HostProgram.Follows (rule : Engine → HostProgram → Prop) (p : HostProgram) (e : Engine) : Prop :=
  ∀ p' e', p.Comes 0 0 e p' e' → rule e' p' ∧
    ∀ text next, p' = .evaluate text next → (Production.evaluate text).Keeps rule e'

/-- A session keeps to the rules, and so do the natives it calls. -/
def HostProgram.Behaves (p : HostProgram) (e : Engine) : Prop :=
  ∀ p' e', p.Comes 0 0 e p' e' → p'.Fair e' ∧
    ∀ text next, p' = .evaluate text next → (Production.evaluate text).Careful e'

namespace Lockstep

/-- No more than fairness is asked for, unless the rules are strict. -/
theorem lax {ι : Type} : ¬ Strict ι := id

/-- There may be natives, unless the rules say otherwise. -/
theorem hosted : Hosted Unit := (inferInstance : Subsingleton Unit)

/-- Nothing is followed, unless the rules say otherwise. -/
theorem unfollowed {ι : Type} : Unfollowed ι := ⟨rfl, fun _ => trivial⟩

theorem rule_of_fair (e : Engine) (p : HostProgram) (fair : p.Fair e) : Rule Unit e p :=
  ⟨fair, fun strict => absurd strict lax, fun _ _ _ => trivial⟩

theorem keeps_of_careful {q : Production} {e : Engine} (careful : q.Careful e) :
    q.Keeps (Rule Unit) e :=
  careful.keeps rule_of_fair

theorem calm_of_careful {q : Production} {e : Engine} (careful : q.Careful e) : Calm Unit q e :=
  calm_of_keeps (fun _ _ _ => trivial) (keeps_of_careful careful)

theorem Ready.evaluateAny {ι : Type} {w : World ι} {limit : ι → UInt32} {c : Current}
    (text : ByteArray) :
    Ready w (.idle limit) c (fun _ => .evaluate text) (.anywhere (.idle limit)) :=
  .evaluate text (fun strict => absurd strict lax) (.of_thawed rfl)

end Lockstep

open Lockstep in
/-- Between the requests of a session the engine is idle. -/
theorem HostProgram.Follows.course [Rules Unit] (hosted : Hosted Unit)
    (unfollowed : Unfollowed Unit) {length : Nat} {settings : List Setting} {e : Engine}
    (small : length ≤ 2 ^ 29) (made : Engine.create? length settings = some e) {p : HostProgram}
    (follows : p.Follows (Rule Unit) e) {p' : HostProgram} {e' : Engine}
    (comes : p.Comes 0 0 e p' e') :
    ∃ (w : World Unit) (c : Current),
      Alike w (.idle fun _ => Engine.capacityOf length) c (fun _ => e') ∧ c.mode = {} := by
  induction comes with
  | start =>
    obtain ⟨room, threshold, maxDepth, tracing, rfl⟩ := Engine.create?_eq small made
    exact ⟨_, _, .initial unfollowed small room (fun _ => threshold) maxDepth fun _ => tracing, rfl⟩
  | @answered p₁ e₁ e₂ r a before first ends ih =>
    obtain ⟨w, c, alike, mode⟩ := ih
    obtain ⟨rule, keeps⟩ := follows p₁ e₁ before
    by_cases evaluates : ∃ text next, p₁ = .evaluate text next
    · obtain ⟨text, next, rfl⟩ := evaluates
      cases first
      cases ends with
      | waiting performs rest =>
        cases rest
        obtain ⟨w', c', -, -, alike', mode', -⟩ :=
          alike.evaluated rule.prudent (.of_thawed rfl)
            (calm_of_keeps (fun e _ _ => unfollowed.may e) (keeps text next rfl)) performs
        exact ⟨w', c', alike', mode'.trans mode⟩
    · have served := alike.request hosted rfl (.inl rfl) first (fun _ => rule)
        fun text next eq => evaluates ⟨text, next, eq⟩
      have quiet : ∀ q e', (r.routine e₁).Asks q e' → Calm Unit q e' := by
        intro q e' asks
        obtain ⟨text, next, eq, -⟩ := eq_evaluate_of_asks first asks
        exact absurd ⟨text, next, eq⟩ evaluates
      obtain ⟨w', c', alike', mode'⟩ := served.holds quiet ends
      exact ⟨w', c', alike', mode'.trans mode⟩

open Lockstep in
theorem HostProgram.Behaves.course {length : Nat} {settings : List Setting} {e : Engine}
    (small : length ≤ 2 ^ 29) (made : Engine.create? length settings = some e) {p : HostProgram}
    (behaves : p.Behaves e) {p' : HostProgram} {e' : Engine} (comes : p.Comes 0 0 e p' e') :
    ∃ (w : World Unit) (c : Current),
      Alike w (.idle fun _ => Engine.capacityOf length) c (fun _ => e') ∧ c.mode = {} := by
  have follows : p.Follows (Rule Unit) e := fun p' e' comes =>
    ⟨rule_of_fair e' p' (behaves p' e' comes).1, fun text next eq =>
      keeps_of_careful ((behaves p' e' comes).2 text next eq)⟩
  exact follows.course hosted unfollowed small made comes

end ArenaScript
