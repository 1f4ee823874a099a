import ArenaScript.Evaluate.Machine
import ArenaScript.Proofs.Lockstep.Natives

/-!
# Runs in step

Productions that engines which agree perform together end together: their
outcomes are related.  The induction is on the bound that `Production.perform`
works with; what a routine waits for is performed within a smaller one.

Several engines stay together as long as none of them runs out of memory.  An
engine on its own stays sound as long as the natives it calls keep to the rules,
at the start of everything that is performed in the course of a run.

Main results:

- `Ready.together`: the routine of each production.
- `Ready.outcome`: the outcomes of productions performed together.
- `Ready.within`: an engine on its own in the course of a run.
- `Ready.exhausted`: by strict rules an engine on its own never halts, unless the
  bound is used up.
-/

namespace ArenaScript

/-- Some production in the course of another one starts or ends on an engine
whose last failure is one for want of memory. -/
def Production.RunsOut (q : Production) (e : Engine) : Prop :=
  ∃ q' e', q.Within e q' e' ∧
    (e'.log.JustFull ∨ ∃ o, q'.Performs e' o ∧ o.2.log.JustFull)

theorem Production.RunsOut.within {q q' : Production} {e e' : Engine} (outer : q.Within e q' e')
    (full : q'.RunsOut e') : q.RunsOut e := by
  obtain ⟨q'', e'', inner, full⟩ := full
  exact ⟨q'', e'', outer.trans inner, full⟩

namespace Lockstep

variable {ι : Type} [Rules ι] {w : World ι} {s : Standing ι} {c : Current} {e : ι → Engine}
  {q : ι → Production} {role : Role ι} {o : ι → Value × Engine}

/-- Nothing goes wrong in the course of a production: on its own, natives keep to
the rules; with others, no engine runs out of memory; only engines that may collect
do. -/
structure Calm (ι : Type) [Rules ι] (q : Production) (e : Engine) : Prop where
  keeps : Hosted ι → q.Keeps (Rule ι) e
  room : ¬ Subsingleton ι → ¬ q.RunsOut e
  may : ∀ e₁, q.Within e .statement e₁ → e₁.Due → MayCollect ι e₁

theorem Calm.within {q q' : Production} {e e' : Engine} (calm : Calm ι q e)
    (within : q.Within e q' e') : Calm ι q' e' where
  keeps := fun hosted => (calm.keeps hosted).within within
  room := fun several full => calm.room several (full.within within)
  may := fun e₁ inner => calm.may e₁ (within.trans inner)

/-- The routines of productions performed together are in step. -/
theorem Ready.together [Nonempty ι] (ready : Ready w s c q role) (alike : Alike w s c e)
    (calm : ∀ i, Calm ι (q i) (e i)) :
    Together LostNext (Goes w role) fun i => (q i).routine (e i) := by
  cases ready with
  | expression => exact alike.expression
  | assignment deep => exact alike.assignment deep
  | assignmentRest deep related operand => exact alike.assignmentRest deep related operand
  | conditional deep => exact alike.conditional deep
  | logical deep op => exact alike.logical deep op
  | logicalRest deep op mode related operand dry free =>
    exact alike.logicalRest deep op mode related operand dry free
  | binary deep level => exact alike.binary deep level
  | binaryRest deep level related operand => exact alike.binaryRest deep level related operand
  | unary deep => exact alike.unary deep
  | access deep => exact alike.access deep
  | accessRest deep related operand => exact alike.accessRest deep related operand
  | members roots object => exact alike.members roots object
  | parameters afterComma => exact alike.parameters afterComma
  | argumentList afterComma dry => exact alike.argumentList afterComma dry
  | bindParameters pos roots leads spares => exact alike.bindParameters pos roots leads spares
  | pushArguments index count hosted enough known =>
    exact alike.pushArguments hosted enough known
      fun i p e₁ calls => (calm i).keeps hosted index count (e i) p e₁ .self calls
  | statement isOpen => exact alike.statement isOpen fun i => (calm i).may (e i) .self
  | block inScope isOpen => exact alike.block inScope isOpen
  | blockRest related plain isOpen => exact alike.blockRest related plain isOpen
  | bindings execute spares => exact alike.bindings execute spares
  | rounds mode marks dry free inside returned behind isOpen =>
    exact alike.rounds mode marks dry free inside returned behind isOpen
  | script related plain isOpen => exact alike.script related plain isOpen
  | evaluate text small spares => exact alike.evaluate text small spares

/-- Blocks that are ready. -/
theorem Ready.block_cases [Nonempty ι] {inScope : Bool}
    (ready : Ready w s c (fun _ => .block inScope) role) :
    role = .passing s c .block ∧ (inScope = false → s.Open c.mode) := by
  generalize same : (fun _ : ι => Production.block inScope) = q at ready
  have same := congrFun same (Classical.arbitrary ι)
  cases ready with
  | block _ isOpen =>
    cases same
    exact ⟨rfl, isOpen⟩
  | _ => cases same

/-- Evaluations that are ready. -/
theorem Ready.spares_of_evaluate [Nonempty ι] {text : ByteArray}
    (ready : Ready w s c (fun _ => .evaluate text) role) : s.Spares s.registers.scope := by
  generalize same : (fun _ : ι => Production.evaluate text) = q at ready
  have same := congrFun same (Classical.arbitrary ι)
  cases ready with
  | evaluate _ _ spares => exact spares
  | _ => cases same

/-- Productions that are ready have the outcomes their roles say, as far as a
bound goes. -/
def Answers (ι : Type) [Rules ι] (bound : Nat) : Prop :=
  ∀ {w : World ι} {s : Standing ι} {c : Current} {q : ι → Production} {role : Role ι}
    {e : ι → Engine} {o : ι → Value × Engine}, Ready w s c q role → Alike w s c e →
    (∀ i, Calm ι (q i) (e i)) → (∀ i, (q i).perform bound (e i) = .ok (o i)) → Out w role o

/-- Routines in step come to their common property, or one of several is lost. -/
theorem Together.settle {α : Type} {L : α → Prop} {P : (ι → α) → Prop} {p : ι → Progress α}
    {bound : Nat} (answers : Answers ι bound) (together : Together L P p)
    (calm : ∀ i q e, (p i).Asks q e → Calm ι q e) {r : ι → α}
    (settled : ∀ i, Production.settle (Production.perform bound) (p i) = .ok (r i)) :
    P r ∨ ¬ Subsingleton ι ∧ ∃ i, L (r i) := by
  induction together with
  | finished r' eq holds =>
    obtain rfl : r' = r := funext fun i => by
      have settled := settled i
      rw [eq i] at settled
      exact Except.ok.inj settled
    exact .inl holds
  | halted _ i h eq =>
    have settled := settled i
    rw [eq] at settled
    cases settled
  | lost several i r' eq lost =>
    have settled := settled i
    rw [eq] at settled
    obtain rfl : r' = r i := Except.ok.inj settled
    exact .inr ⟨several, i, lost⟩
  | waiting q e k eq ready alike _ ih =>
    have answered : ∀ i, ∃ o, (q i).perform bound (e i) = .ok o
        ∧ Production.settle (Production.perform bound) (k i o) = .ok (r i) := by
      intro i
      have settled := settled i
      rw [eq i, Production.settle] at settled
      cases answer : (q i).perform bound (e i) with
      | error h => simp only [answer, reduceCtorEq] at settled
      | ok o =>
        simp only [answer] at settled
        exact ⟨o, rfl, settled⟩
    choose o performs rest using answered
    have asked : ∀ i, Calm ι (q i) (e i) := fun i => calm i _ _ (by rw [eq i]; exact .now _ _ _)
    refine ih o (answers ready alike asked performs) (fun i => ⟨bound, performs i⟩) ?_ rest
    intro i q' e' asks
    refine calm i q' e' ?_
    rw [eq i]
    exact .later ⟨bound, performs i⟩ asks

theorem answers [Nonempty ι] (bound : Nat) : Answers ι bound := by
  induction bound with
  | zero =>
    intro w s c q role e o _ _ _ performs
    cases performs (Classical.arbitrary ι)
  | succ bound ih =>
    intro w s c q role e o ready alike calm performs
    have together := ready.together alike calm
    have settled : ∀ i, ∃ r,
        Production.settle (Production.perform bound) ((q i).routine (e i)) = .ok r := by
      intro i
      have performs := performs i
      rw [Production.perform_succ, Production.complete] at performs
      split at performs
      · exact ⟨_, by assumption⟩
      · exact ⟨_, by assumption⟩
      · cases performs
    choose r settled using settled
    have yields : ∀ i, Production.complete bound ((q i).routine (e i)) = .ok (o i) := performs
    simp only [Production.complete, settled] at yields
    have asked : ∀ i q' e', ((q i).routine (e i)).Asks q' e' → Calm ι q' e' :=
      fun i _ _ asks => (calm i).within (.asked .self asks)
    have ends := fun i => Progress.ends_of_settle (settled i)
    rcases together.settle ih asked settled with goes | ⟨several, i, lost⟩
    · rcases goes with ⟨o', out, eq⟩ | ⟨w', s', c', q', role', e', eq, ready', alike', outs⟩
      · simp only [eq] at yields
        obtain rfl : o' = o := funext fun i => Except.ok.inj (yields i)
        exact out
      · simp only [eq] at yields ends
        refine outs o (ih ready' alike' (fun i => ?_) yields)
        exact (calm i).within (.goesOn .self (ends i))
    · -- the engine that is lost has run out of memory
      refine absurd ?_ ((calm i).room several)
      have yields := yields i
      have ends := ends i
      cases eq : r i with
      | mk next e' =>
        rw [eq] at yields ends lost
        cases next with
        | value v =>
          refine ⟨q i, e i, .self, .inr ⟨(v, e'), ⟨bound + 1, ?_⟩, lost⟩⟩
          rw [performs i, ← yields]
        | goOn q' => exact ⟨q', e', .goesOn .self ends, .inl lost⟩

/-! ## An engine on its own -/

section

variable [Rules Unit] {w : World Unit} {s : Standing Unit} {c : Current} {role : Role Unit}
  {q q' : Production} {e e' : Engine} {o : Value × Engine}

theorem calm_of_keeps (may : ∀ e₁, q.Within e .statement e₁ → e₁.Due → MayCollect Unit e₁)
    (keeps : q.Keeps (Rule Unit) e) : Calm Unit q e where
  keeps := fun _ => keeps
  room := fun several => absurd (inferInstance : Subsingleton Unit) several
  may := may

/-- Without natives nothing goes wrong on its own. -/
theorem calm_of_unhosted (may : ∀ e₁, q.Within e .statement e₁ → e₁.Due → MayCollect Unit e₁)
    (unhosted : ¬ Hosted Unit) : Calm Unit q e where
  keeps := fun hosted => absurd hosted unhosted
  room := fun several => absurd (inferInstance : Subsingleton Unit) several
  may := may

/-- A production on its own ends as its role says. -/
theorem Ready.outcome (ready : Ready w s c (fun _ => q) role) (alike : Alike w s c fun _ => e)
    (calm : Calm Unit q e) (performs : q.Performs e o) : Out w role fun _ => o := by
  obtain ⟨bound, performs⟩ := performs
  exact answers bound ready alike (fun _ => calm) fun _ => performs

/-- A routine on its own comes to what it is known to come to. -/
theorem Together.holds {α : Type} {L : α → Prop} {P : (Unit → α) → Prop} {p : Progress α}
    (together : Together L P fun _ => p) (calm : ∀ q e, p.Asks q e → Calm Unit q e) {r : α}
    (ends : p.Ends r) : P fun _ => r := by
  obtain ⟨bound, settled⟩ := ends.settle
  rcases together.settle (answers bound) (fun _ => calm) (r := fun _ => r)
      fun _ => settled bound (Nat.le_refl _) with holds | ⟨several, -⟩
  · exact holds
  · exact absurd (inferInstance : Subsingleton Unit) several

/-- What a routine waits for is ready. -/
theorem Together.asks {α : Type} {L : α → Prop} {P : (Unit → α) → Prop} {p : Progress α}
    (together : Together L P fun _ => p) (calm : ∀ q e, p.Asks q e → Calm Unit q e)
    (asks : p.Asks q e) :
    ∃ (w : World Unit) (s : Standing Unit) (c : Current) (role : Role Unit),
      Ready w s c (fun _ => q) role ∧ Alike w s c fun _ => e := by
  generalize same : (fun _ : Unit => p) = ps at together
  induction together generalizing p with
  | finished r eq =>
    have eq := eq ()
    rw [← same] at eq
    subst eq
    cases asks
  | halted _ i h eq =>
    rw [← same] at eq
    subst eq
    cases asks
  | lost several => exact absurd (inferInstance : Subsingleton Unit) several
  | @waiting _ w s c role q₁ e₁ k eq ready alike _ ih =>
    have eq := eq ()
    rw [← same] at eq
    subst eq
    cases asks with
    | now => exact ⟨w, s, c, role, ready, alike⟩
    | later performs rest =>
      have out := ready.outcome alike (calm _ _ (.now _ _ _)) performs
      exact ih _ out (fun _ => performs) (fun q e asks => calm q e (.later performs asks)) rest rfl

/-- All that is performed in the course of a production is ready when it
starts. -/
theorem Ready.within (ready : Ready w s c (fun _ => q) role) (alike : Alike w s c fun _ => e)
    (calm : Calm Unit q e) (within : q.Within e q' e') :
    ∃ (w' : World Unit) (s' : Standing Unit) (c' : Current) (role' : Role Unit),
      Ready w' s' c' (fun _ => q') role' ∧ Alike w' s' c' fun _ => e' := by
  induction within with
  | self => exact ⟨w, s, c, role, ready, alike⟩
  | @asked q₁ _ e₁ _ outer asks ih =>
    obtain ⟨w₁, s₁, c₁, role₁, ready₁, alike₁⟩ := ih
    have together := ready₁.together alike₁ fun _ => calm.within outer
    exact together.asks (fun _ _ asks => calm.within (.asked outer asks)) asks
  | @goesOn q₁ q₂ e₁ e₂ outer ends ih =>
    obtain ⟨w₁, s₁, c₁, role₁, ready₁, alike₁⟩ := ih
    have together := ready₁.together alike₁ fun _ => calm.within outer
    have goes := together.holds (fun _ _ asks => calm.within (.asked outer asks)) ends
    rcases goes with ⟨o, -, eq⟩ | ⟨w', s', c', q', role', e', eq, ready', alike', -⟩
    · cases eq ()
    · have same : ∀ u, q' u = q₂ ∧ e' u = e₂ := fun u => by
        have eq := eq u
        simp only [Prod.mk.injEq, Next.goOn.injEq] at eq
        exact ⟨eq.1.symm, eq.2.symm⟩
      obtain rfl : q' = fun _ => q₂ := funext fun u => (same u).1
      obtain rfl : e' = fun _ => e₂ := funext fun u => (same u).2
      exact ⟨w', s', c', role', ready', alike'⟩

/-- By strict rules the performances within a bound end, unless the bound is used
up. -/
def Advances (bound : Nat) : Prop :=
  ∀ {w : World Unit} {s : Standing Unit} {c : Current} {q : Production} {role : Role Unit}
    {e : Engine} {h : Halt}, Ready w s c (fun _ => q) role → Alike w s c (fun _ => e) →
    Calm Unit q e → q.perform bound e = .error h → h = .exhausted

/-- A routine by strict rules does not halt itself. -/
theorem Together.exhausted {α : Type} {L : α → Prop} {P : (Unit → α) → Prop}
    {p : Progress α} (strict : Strict Unit) {bound : Nat} (advances : Advances bound)
    (together : Together L P fun _ => p) (calm : ∀ q e, p.Asks q e → Calm Unit q e) {h : Halt}
    (halts : Production.settle (Production.perform bound) p = .error h) :
    h = .exhausted := by
  generalize same : (fun _ : Unit => p) = ps at together
  induction together generalizing p with
  | finished r eq =>
    have eq := eq ()
    rw [← same] at eq
    subst eq
    cases halts
  | halted lax => exact absurd strict lax
  | lost several => exact absurd (inferInstance : Subsingleton Unit) several
  | waiting q e k eq ready alike _ ih =>
    have eq := eq ()
    rw [← same] at eq
    subst eq
    have asked := calm _ _ (.now (q ()) (e ()) (k ()))
    cases answer : (q ()).perform bound (e ()) with
    | error h' =>
      simp only [Production.settle, answer, Except.error.injEq] at halts
      exact halts ▸ advances ready alike asked answer
    | ok o =>
      simp only [Production.settle, answer] at halts
      have performs : (q ()).Performs (e ()) o := ⟨bound, answer⟩
      exact ih _ (Ready.outcome ready alike asked performs) (fun _ => performs)
        (fun q' e' asks => calm q' e' (.later performs asks)) halts rfl

theorem advances (strict : Strict Unit) (bound : Nat) : Advances bound := by
  induction bound with
  | zero =>
    intro w s c q role e h _ _ _ halts
    exact (Except.error.inj halts).symm
  | succ bound ih =>
    intro w s c q role e h ready alike calm halts
    have together := ready.together alike fun _ => calm
    have asked : ∀ q' e', (q.routine e).Asks q' e' → Calm Unit q' e' :=
      fun _ _ asks => calm.within (.asked .self asks)
    rw [Production.perform_succ, Production.complete] at halts
    cases settled : Production.settle (Production.perform bound) (q.routine e) with
    | error h' =>
      simp only [settled, Except.error.injEq] at halts
      exact halts ▸ together.exhausted strict ih asked settled
    | ok r =>
      obtain ⟨next, e'⟩ := r
      cases next with
      | value v =>
        simp only [settled, reduceCtorEq] at halts
      | goOn q' =>
        simp only [settled] at halts
        have within : q.Within e q' e' := .goesOn .self (Progress.ends_of_settle settled)
        obtain ⟨w', s', c', role', ready', alike'⟩ := ready.within alike calm within
        exact ih ready' alike' (calm.within within) halts

/-- By strict rules an engine on its own never halts, unless the bound is used
up. -/
theorem Ready.exhausted (strict : Strict Unit) (ready : Ready w s c (fun _ => q) role)
    (alike : Alike w s c fun _ => e) (calm : Calm Unit q e) {bound : Nat} {h : Halt}
    (halts : q.perform bound e = .error h) : h = .exhausted :=
  advances strict bound ready alike calm halts

end

end Lockstep

end ArenaScript
