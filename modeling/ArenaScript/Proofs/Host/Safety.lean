import ArenaScript.Proofs.Arena.Scratch
import ArenaScript.Proofs.Host.Sessions

/-!
# Accesses stay in range

An access outside the arena, a text or a stack is a fault.  In an orderly session
on a new engine there are none: whatever is evaluated, and whatever the natives
of the session ask for, a run goes on until it ends.  The only halt is that of an
allowance of steps, which a run that ends does not come to.

The scratch stack shares a block with the entities.  No entity and no literal is
written into it, and across everything that is performed its words are the same,
wherever collections have moved what they refer to.

Main definitions:

- `Engine.Secure`: the parts of the arena are apart, and entities and literals
  are written below the scratch stack.
- `Engine.KeepsWords`: the words of the scratch stack, below some on top, are what
  they were.

Main results:

- `Engine.session_stays_in_range`: no access of a session is out of range.
-/

namespace ArenaScript

namespace Engine

/-- The entities, the scratch stack and the rest of the block are apart, and
entities and literals are written below the scratch stack. -/
structure Secure (e : Engine) : Prop where
  used_le : e.arena.used.toNat ≤ e.arena.limit.toNat
  limit_le : e.arena.limit.toNat ≤ e.arena.top.toNat
  top_le : e.arena.top.toNat ≤ e.arena.bytes.size
  writes : ∀ e', e.Writes e' → e.arena.KeepsScratch e'.arena

theorem Sound.secure {e : Engine} {h : Heap} {scratch : List Value} (sound : e.Sound h scratch)
    (small : e.arena.limit.toNat ≤ 2 ^ 29) : e.Secure where
  used_le := sound.holds.used_le
  limit_le := sound.holds.limit_le_top
  top_le := sound.holds.top_le
  writes := fun _ => sound.keepsScratch small

/-- The words of the scratch stack are what they were, without some on top and
wherever collections of some engines have moved what they refer to. -/
structure KeepsWords (collects : Engine → Prop) (e : Engine) (taken : UInt32) (e' : Engine) :
    Prop where
  limit : e'.arena.limit = e.arena.limit + 8 * taken
  words : ∃ r : e.Passage collects e', e.arena.scratch = .ok r.words
    ∧ e'.arena.scratch = .ok r.words'
    ∧ List.Forall₂ (Value.Moved r.path) (r.words.drop taken.toNat) r.words'

end Engine

/-- The words that a production takes from the scratch stack: a native takes its
arguments. -/
def Production.taken : Production → UInt32
  | .pushArguments _ count => count
  | _ => 0

namespace Lockstep

/-- The strict rules for an engine on its own. -/
abbrev strictRules : Rules Unit where
  strict := True
  hosted := True
  lone := fun _ => inferInstance

/-- What a production leaves on the scratch stack. -/
theorem Ready.ends_scratch {ι : Type} [Rules ι] {w : World ι} {s s' : Standing ι} {c : Current}
    {q : ι → Production} {role : Role ι} (ready : Ready w s c q role) (ends : role.ends s') (i : ι) :
    s'.scratch = s.scratch.drop (q i).taken.toNat
      ∧ s'.limit i = s.limit i + 8 * (q i).taken := by
  have all : s.scratch = s.scratch.drop (0 : UInt32).toNat ∧ s.limit i = s.limit i + 8 * 0 :=
    ⟨rfl, (UInt32.add_zero _).symm⟩
  cases ready with
  | pushArguments index count hosted enough known =>
    obtain rfl := ends
    exact ⟨rfl, rfl⟩
  | bindParameters pos roots leads =>
    obtain ⟨g, result, rfl⟩ := ends
    exact all
  | _ =>
    obtain rfl := ends
    exact all

section

variable {w w' : World Unit} {s s' : Standing Unit} {c c' : Current} {e e' : Engine}

/-- Engines whose scratch stacks have the same tags keep their words. -/
theorem Alike.keepsWords [Rules Unit] (start : Rules.start = some w)
    (alike : Alike w s c fun _ => e) (alike' : Alike w' s' c' fun _ => e') {taken : UInt32}
    (scratch : s'.scratch = s.scratch.drop taken.toNat)
    (limit : s'.limit () = s.limit () + 8 * taken) :
    e.KeepsWords (MayCollect Unit) taken e' where
  limit := by
    rw [alike'.limit (), alike.limit (), limit]
  words := by
    obtain ⟨r, -, words, words', onto, -⟩ := alike.exists_passage start alike'
    refine ⟨r, r.sound.holds.scratch_eq, r.sound'.holds.scratch_eq, ?_⟩
    have step : ∀ tag v v', w.Related tag (fun _ => v) ∧ tag.IsPlain →
        w'.Related tag (fun _ => v') ∧ tag.IsPlain → Value.Moved r.path v v' :=
      fun _ _ _ here there => here.1.succeeds onto there.1
    have listed' := alike'.scratch
    rw [scratch] at listed'
    rw [words, words']
    exact Listed.forall₂ step (alike.scratch.drop taken.toNat) listed'

/-- What is performed secures the arena and keeps the words; entities are followed from
its start. -/
theorem Ready.keepsWords [rules : Rules Unit] {q : Production} {role : Role Unit}
    {o : Value × Engine} (ready : Ready w s c (fun _ => q) role) (alike : Alike w s c fun _ => e)
    (calm : Calm Unit q e) (performs : q.Performs e o) :
    o.2.Secure ∧ e.KeepsWords (q.Collects e) q.taken o.2 := by
  have followed := alike.following (q.Collects e)
  have calm := calm.following w fun _ collects => collects
  have ready := ready.following w (q.Collects e)
  let : Rules Unit := rules.following w (q.Collects e)
  obtain ⟨w', s', c', tag, v, e', eq, alike', ends, -⟩ := ready.outcome followed calm performs
  obtain rfl : o = (v (), e' ()) := eq ()
  obtain ⟨scratch, limit⟩ := ready.ends_scratch ends ()
  exact ⟨(alike'.sound ()).secure (alike'.fits.limit_le ()),
    followed.keepsWords rfl alike' scratch limit⟩

end

end Lockstep

/-! ## Sessions -/

/-- What a routine waits for, in its first part or in what follows. -/
theorem Progress.Asks.of_bind {α β : Type} {p : Progress α} {f : α → Progress β} {q : Production}
    {e : Engine} (asks : (p.bind f).Asks q e) : p.Asks q e ∨ ∃ a, p.Ends a ∧ (f a).Asks q e := by
  induction p with
  | finished a => exact .inr ⟨a, .finished a, asks⟩
  | halted h => cases asks
  | waiting q' e' k ih =>
    cases asks with
    | now => exact .inl (.now _ _ _)
    | later performs rest =>
      rcases ih _ rest with here | ⟨a, ends, there⟩
      · exact .inl (.later performs here)
      · exact .inr ⟨a, .waiting performs ends, there⟩

/-- What a program waits for is the evaluation of a text that it has come to. -/
theorem HostProgram.comes_of_asks {offset : UInt32} {count : Nat} {p : HostProgram}
    {q : Production} {e e' : Engine} (asks : (Routine.ofProgram offset count p e).Asks q e') :
    ∃ text next, q = .evaluate text ∧ p.Comes offset count e (.evaluate text next) e' := by
  induction p using HostProgram.induction offset count generalizing e with
  | step p ih =>
  cases first : p.first? offset count with
  | none =>
    cases p with
    | done v => cases asks
    | _ => cases first
  | some r =>
    rw [Routine.ofProgram_eq first] at asks
    rcases asks.of_bind with here | ⟨a, ends, later⟩
    · obtain ⟨text, next, rfl, rfl, rfl⟩ := eq_evaluate_of_asks first here
      exact ⟨text, next, rfl, .start⟩
    · obtain ⟨text, next, eq, comes⟩ := ih r first a.1 later
      exact ⟨text, next, eq, .later first ends comes⟩

namespace Engine

variable {length : Nat} {settings : List Setting} {e : Engine} {p : HostProgram}

open Lockstep in
/-- In an orderly session on a new engine no access is out of range: it halts only
when an allowance is used up, and so does each evaluation in it.  All along, the
arena is in order, and whatever is performed keeps the words of the scratch
stack, except that a native takes its arguments. -/
theorem session_stays_in_range (small : length ≤ 2 ^ 29)
    (made : create? length settings = some e) (orderly : p.Follows HostProgram.Orderly e) :
    (∀ bound h, Production.settle (Production.perform bound) (Routine.ofProgram 0 0 p e) = .error h →
        h = .exhausted)
      ∧ ∀ p' e', p.Comes 0 0 e p' e' → e'.Secure ∧ ∀ text next, p' = .evaluate text next →
        (∀ steps h, Engine.evaluate steps text e' = .error h → h = .exhausted)
          ∧ ∀ q e₁, (Production.evaluate text).Within e' q e₁ → e₁.Secure
            ∧ ∀ o, q.Performs e₁ o →
              o.2.Secure ∧ e₁.KeepsWords (q.Collects e₁) q.taken o.2 := by
  let : Rules Unit := strictRules
  have strict : Strict Unit := trivial
  have hosted : Hosted Unit := trivial
  have follows : p.Follows (Rule Unit) e := fun p' e' comes =>
    ⟨⟨(orderly p' e' comes).1.1, fun _ => (orderly p' e' comes).1.2, fun _ _ _ => trivial⟩,
      fun text next eq index count e'' p'' e₁ within calls p₁ e₂ comes' =>
        have rule := (orderly p' e' comes).2 text next eq index count e'' p'' e₁ within calls p₁ e₂
          comes'
        ⟨rule.1, fun _ => rule.2, fun _ _ _ => trivial⟩⟩
  have unfollowed : Unfollowed Unit := ⟨rfl, fun _ => trivial⟩
  refine ⟨fun bound h halts => ?_, fun p' e' comes => ?_⟩
  · obtain ⟨w, c, alike, -⟩ := follows.course hosted unfollowed small made .start
    have together := alike.ofProgram hosted rfl (.inl rfl)
      fun _ p' e' comes => (follows p' e' comes).1
    refine together.exhausted strict (advances strict bound) (fun q e' asks => ?_) halts
    obtain ⟨text, next, rfl, comes⟩ := HostProgram.comes_of_asks asks
    exact calm_of_keeps (fun _ _ _ => trivial) ((follows _ _ comes).2 text next rfl)
  · obtain ⟨w, c, alike, -⟩ := follows.course hosted unfollowed small made comes
    refine ⟨(alike.sound ()).secure (alike.fits.limit_le ()), ?_⟩
    rintro text next rfl
    obtain ⟨rule, keeps⟩ := follows _ e' comes
    have calm : Calm Unit (.evaluate text) e' :=
      calm_of_keeps (fun _ _ _ => trivial) (keeps text next rfl)
    have ready := Ready.evaluate (w := w) (c := c) text rule.prudent
      (.of_thawed (s := .idle fun _ => Engine.capacityOf length) rfl)
    refine ⟨fun steps h halts => ?_, fun q e₁ within => ?_⟩
    · by_contra other
      have settled : Settled (.error h : Except Halt (Value × Engine)) := fun same =>
        other (Except.error.inj same)
      obtain ⟨bound, halts⟩ := (exists_evaluate_iff text e' _ settled).mp ⟨steps, halts⟩
      exact other (ready.exhausted strict alike calm halts)
    · obtain ⟨w₁, s₁, c₁, role, ready₁, alike₁⟩ := ready.within alike calm within
      refine ⟨(alike₁.sound ()).secure (alike₁.fits.limit_le ()), fun o performs => ?_⟩
      exact ready₁.keepsWords alike₁ (calm.within within) performs

/-- The session with a native comes to its end, and no access is out of range. -/
theorem nesting_stays_in_range :
    (∃ v e', HostProgram.nesting.Comes 0 0 (initial 96) (.done v) e')
      ∧ (∀ bound h, Production.settle (Production.perform bound)
          (Routine.ofProgram 0 0 HostProgram.nesting (initial 96)) = .error h → h = .exhausted)
      ∧ ∀ p' e', HostProgram.nesting.Comes 0 0 (initial 96) p' e' → e'.Secure ∧
        ∀ text next, p' = .evaluate text next →
          (∀ steps h, Engine.evaluate steps text e' = .error h → h = .exhausted)
            ∧ ∀ q e₁, (Production.evaluate text).Within e' q e₁ → e₁.Secure
              ∧ ∀ o, q.Performs e₁ o →
                o.2.Secure ∧ e₁.KeepsWords (q.Collects e₁) q.taken o.2 :=
  ⟨HostProgram.exists_done_of_watch HostProgram.watch_nesting,
    session_stays_in_range (by decide) (create?_nil (by decide))
      (HostProgram.follows_of_watch HostProgram.watch_nesting)⟩

end Engine

end ArenaScript
