import ArenaScript.Proofs.Host.Balance
import ArenaScript.Proofs.Host.Watching

/-!
# What holds all along a session

A session is a host program that runs at the top of a new engine: it registers
natives, makes and sets values, asks for collections and evaluates texts, and
the natives that are called do the same inside those evaluations.  As long as
the values handed over are alive, the arena keeps its layout from request to
request and from production to production, and every evaluation leaves the
engine as it found it.

Main results:

- `Engine.session_keeps_layout`: the layout of the arena.
- `Engine.evaluation_is_balanced`: the balance of evaluations.
-/

namespace ArenaScript

variable {length : Nat} {settings : List Setting} {e : Engine} {p : HostProgram}

namespace Engine

/-- A session on a new engine keeps the layout: before and after each of its
requests, and whenever a production is performed in the course of a request, be
it a statement of a text or part of what a native has asked for. -/
theorem session_keeps_layout (small : length ≤ 2 ^ 29) (made : create? length settings = some e)
    (behaves : p.Behaves e) :
    ∀ p' e', p.Comes 0 0 e p' e' → e'.LaidOut ∧
      ∀ text next, p' = .evaluate text next →
        ∀ q e'', (Production.evaluate text).Within e' q e'' → e''.LaidOut := by
  intro p' e' comes
  obtain ⟨w, c, alike, -⟩ := behaves.course small made comes
  refine ⟨(alike.sound ()).laidOut, ?_⟩
  rintro text next rfl q e'' within
  have careful := (behaves _ e' comes).2 text next rfl
  obtain ⟨w', s', c', role', -, alike'⟩ :=
    (Lockstep.Ready.evaluateAny text).within alike (Lockstep.calm_of_careful careful) within
  exact (alike'.sound ()).laidOut

end Engine

/-- A session in which a native that a text calls evaluates another text, with a
collection before every statement. -/
def HostProgram.nesting : HostProgram :=
  .setThreshold 0 <|
    .register (fun _ => .evaluate "'b';{}".toUTF8 fun _ => .done .undefined) fun f =>
      .set (.ref .object 0) "f".toUTF8 f fun _ =>
        .evaluate "'c';f('a')".toUTF8 fun _ => .done .undefined

/-- The session on a small engine has been watched to its end. -/
theorem HostProgram.watch_nesting :
    nesting.watch (Production.calls? 28 5) 28 0 0 5 (Engine.initial 96) = true := by
  decide +kernel

namespace Engine

/-- The session with a native comes to its end, and keeps the layout all along. -/
theorem nesting_keeps_layout :
    (∃ v e', HostProgram.nesting.Comes 0 0 (initial 96) (.done v) e')
      ∧ ∀ p' e', HostProgram.nesting.Comes 0 0 (initial 96) p' e' → e'.LaidOut ∧
        ∀ text next, p' = .evaluate text next →
          ∀ q e'', (Production.evaluate text).Within e' q e'' → e''.LaidOut :=
  ⟨HostProgram.exists_done_of_watch HostProgram.watch_nesting,
    session_keeps_layout (by decide) (create?_nil (by decide))
      (HostProgram.behaves_of_watch HostProgram.watch_nesting)⟩

/-- Evaluations in a session on a new engine are balanced, those at its top and
those inside natives, whatever their outcome; and after one at the top nothing
is under way.  What has moved was moved by the collections of the evaluation. -/
theorem evaluation_is_balanced (small : length ≤ 2 ^ 29) (made : create? length settings = some e)
    (behaves : p.Behaves e) :
    ∀ text next e₀, p.Comes 0 0 e (.evaluate text next) e₀ →
      (∀ o, (Production.evaluate text).Performs e₀ o →
          e₀.Balanced ((Production.evaluate text).Collects e₀) o.2 ∧ o.2.Idle)
        ∧ ∀ text' e₁ o, (Production.evaluate text).Within e₀ (.evaluate text') e₁ →
          (Production.evaluate text').Performs e₁ o →
            e₁.Balanced ((Production.evaluate text').Collects e₁) o.2 := by
  intro text next e₀ comes
  obtain ⟨w, c, alike, mode⟩ := behaves.course small made comes
  have calm := Lockstep.calm_of_careful ((behaves _ e₀ comes).2 text next rfl)
  have any {n : Nat} (strict : Lockstep.Strict Unit) : n < 2 ^ 24 := absurd strict Lockstep.lax
  refine ⟨fun o performs => ⟨alike.evaluation_balanced any (.of_thawed rfl) calm performs, ?_⟩,
    fun text' e₁ o within performs => ?_⟩
  · obtain ⟨w', c', -, -, alike', mode', -⟩ :=
      alike.evaluated any (.of_thawed rfl) calm performs
    exact alike'.idle (mode'.trans mode)
  · obtain ⟨w₁, s₁, c₁, role, ready, alike₁⟩ :=
      (Lockstep.Ready.evaluateAny text).within alike calm within
    exact alike₁.evaluation_balanced any ready.spares_of_evaluate (calm.within within) performs

/-- The evaluations of the session with a native are balanced, at its top and
inside the native. -/
theorem nesting_is_balanced :
    (∃ v e', HostProgram.nesting.Comes 0 0 (initial 96) (.done v) e')
      ∧ ∀ text next e₀, HostProgram.nesting.Comes 0 0 (initial 96) (.evaluate text next) e₀ →
        (∀ o, (Production.evaluate text).Performs e₀ o →
            e₀.Balanced ((Production.evaluate text).Collects e₀) o.2 ∧ o.2.Idle)
          ∧ ∀ text' e₁ o, (Production.evaluate text).Within e₀ (.evaluate text') e₁ →
            (Production.evaluate text').Performs e₁ o →
              e₁.Balanced ((Production.evaluate text').Collects e₁) o.2 :=
  ⟨HostProgram.exists_done_of_watch HostProgram.watch_nesting,
    evaluation_is_balanced (by decide) (create?_nil (by decide))
      (HostProgram.behaves_of_watch HostProgram.watch_nesting)⟩

end Engine

end ArenaScript
