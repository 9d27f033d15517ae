import ExecutionSystem.RunnerSteps

/-!
# What clears the system lock

Four things lock the system: an operator, a rejection, a reconciliation
that is not clean, and a disconnect. One flag, `_locked_by_disconnect`,
records which; the auto-resume clears a lock when it is set. The branch of
the tick that sets it does not look whether the lock is held already, and
of the other three only the auto-resume's own reconciliation resets it. So
the flag can stand for a lock that an operator, a rejection or a mismatch
holds too, and the auto-resume clears that as well.

It does not in a run in which the causes are never mixed this way
(`SingleProvenance`).
-/

namespace ExecutionRunner

/-- **The provenance of the lock is respected**: a step that clears it is
the answer that makes a reconciliation clean, of an operator's unlock
command, or of an auto-resume where every cause raised since the system
was last unlocked was a disconnect. -/
def RespectsProvenance (s : ExecutionRunner) (l : Label) (s' : ExecutionRunner) : Prop :=
  s.systemLocked = true → s'.systemLocked = false →
    ∃ (site : ReconcileSite) (orders : List OrderId) (index : OrderIndex)
      (found : ReconciliationReport) (broker : List WorkingOrder),
      s.pc = .reconcileOrders site orders index found ∧ l = .reply (.openOrders broker)
        ∧ (compareOrders found s.om.orders orders index broker).isClean = true
        ∧ ((∃ rest, site = .unlockCommand rest)
          ∨ site = .autoResume ∧ ∀ cause ∈ s.lockCauses, cause = .disconnect)

/-- **The step does not mix provenances**: a disconnect is raised only while
the system is unlocked or locked by a disconnect, and another cause only
while the flag is not set, or by the reconciliation of the auto-resume,
which resets it. -/
structure SingleProvenance (s : ExecutionRunner) (l : Label) : Prop where
  disconnect : s.raises l = some .disconnect → s.systemLocked = true →
    s.lockedByDisconnect = true
  other : ∀ cause, s.raises l = some cause → cause ≠ .disconnect →
    s.lockedByDisconnect = true → s.resuming = true

end ExecutionRunner

/-- The runner is in an attempt of an auto-resume. -/
def RunnerPc.inResume : RunnerPc → Bool
  | resumeConnected | reconcilePositions .autoResume .. | reconcileOrders .autoResume .. =>
    true
  | _ => false

namespace ExecutionRunner

/-- **The flag tells the truth**: while it is set every cause was a
disconnect, and an auto-resume is attempted only while it is set. -/
structure FlagTrue (s : ExecutionRunner) : Prop where
  wellFormed : s.pc.wellFormed = true
  unlocked : s.systemLocked = false → s.lockCauses = []
  flagged : s.lockedByDisconnect = true → ∀ cause ∈ s.lockCauses, cause = .disconnect
  resuming : s.pc.inResume = true → s.lockedByDisconnect = true

instance (s : ExecutionRunner) (l : Label) : Decidable (s.SingleProvenance l) :=
  decidable_of_iff
    ((s.raises l = some .disconnect → s.systemLocked = true →
        s.lockedByDisconnect = true)
      ∧ ∀ cause ∈ s.raises l, cause ≠ .disconnect →
        s.lockedByDisconnect = true → s.resuming = true)
    ⟨fun h => ⟨h.1, h.2⟩, fun h => ⟨h.disconnect, h.other⟩⟩

variable {env : RunnerEnv} {s s' : ExecutionRunner} {l : Label}

/-- A step that neither raises a cause nor ends a reconciliation leaves
the flag. -/
theorem flag_eq_of_raises_eq_none (he : Effect env s l s') (hraises : s.raises l = none)
    (hno : ∀ site orders index found broker,
      s.pc = .reconcileOrders site orders index found → l ≠ .reply (.openOrders broker)) :
    s'.lockedByDisconnect = s.lockedByDisconnect := by
  cases he with
  | keeps h => exact h.lockedByDisconnect
  | batched _ _ _ _ h => exact h.lockedByDisconnect
  | background _ _ _ _ h | cancels _ _ _ h | sweeps _ _ _ h | leaves _ _ h
  | enters _ _ _ _ _ _ _ _ _ _ h => exact h.lockedByDisconnect
  | filled fill hl h => rw [h]; rfl
  | raised cause hcause => rw [hraises] at hcause; cases hcause
  | unlocked site orders index found broker hpc hl => exact absurd hl (hno _ _ _ _ _ hpc)

/-- An attempt starts with the flag set, and goes on with it. -/
theorem FlagTrue.resuming_step (hs : s.FlagTrue) (h : s.step env l = some s')
    (hpc' : s'.pc.inResume = true) : s'.lockedByDisconnect = true := by
  have he := step_effect h
  rcases step_flow h with ⟨hl, hsame⟩ | ⟨-, hflow⟩
  · have hraises : s.raises l = none := by
      unfold raises
      split <;> first | rfl | cases hl
    rw [flag_eq_of_raises_eq_none he hraises fun _ _ _ _ _ _ heq => by rw [heq] at hl; cases hl]
    exact hs.resuming (hsame ▸ hpc')
  · generalize hp : s.pc = pc at hflow
    generalize s'.pc = pc' at hflow hpc'
    cases hflow with
    | resumes _ hflag =>
      rw [flag_eq_of_raises_eq_none he (by unfold raises; rw [hp]) (by rw [hp]; nofun)]
      exact hflag
    | reconnected =>
      rw [flag_eq_of_raises_eq_none he (by unfold raises; rw [hp]) (by rw [hp]; nofun)]
      exact hs.resuming (by rw [hp]; rfl)
    | @reconcileAsks site =>
      rw [flag_eq_of_raises_eq_none he (by unfold raises; rw [hp]) (by rw [hp]; nofun)]
      cases site with
      | autoResume => exact hs.resuming (by rw [hp]; rfl)
      | _ => cases hpc'
    | returned =>
      have hwf := hs.wellFormed
      rw [hp] at hwf
      cases pc' <;> cases hwf <;> cases hpc'
    | managed _ hmanaging => cases pc' <;> cases hmanaging <;> cases hpc'
    | exitsGoOn _ hexiting => cases pc' <;> cases hexiting <;> cases hpc'
    | _ => cases hpc'

/-- The lock after a step that leaves it. -/
theorem FlagTrue.of_eq (hs : s.FlagTrue) (hwf : s'.pc.wellFormed = true)
    (hresuming : s'.pc.inResume = true → s'.lockedByDisconnect = true)
    (hlocked : s'.systemLocked = s.systemLocked)
    (hflag : s'.lockedByDisconnect = s.lockedByDisconnect)
    (hcauses : s'.lockCauses = s.lockCauses) : s'.FlagTrue where
  wellFormed := hwf
  unlocked h := hcauses.trans (hs.unlocked (hlocked ▸ h))
  flagged h := hcauses ▸ hs.flagged (hflag ▸ h)
  resuming := hresuming

/-- **A step that does not mix provenances keeps the flag true.** -/
theorem FlagTrue.step (hs : s.FlagTrue) (h : s.step env l = some s')
    (hsingle : s.SingleProvenance l) : s'.FlagTrue := by
  have hwf := wellFormed_step h hs.wellFormed
  have hresuming := hs.resuming_step h
  cases step_effect h with
  | keeps hk =>
    exact hs.of_eq hwf hresuming hk.systemLocked hk.lockedByDisconnect hk.lockCauses
  | batched _ _ _ _ hk =>
    exact hs.of_eq hwf hresuming hk.systemLocked hk.lockedByDisconnect hk.lockCauses
  | background _ _ _ _ hk | cancels _ _ _ hk | sweeps _ _ _ hk | leaves _ _ hk
  | enters _ _ _ _ _ _ _ _ _ _ hk =>
    exact hs.of_eq hwf hresuming hk.systemLocked hk.lockedByDisconnect hk.lockCauses
  | filled fill hl hf =>
    subst hf
    exact hs.of_eq hwf hresuming rfl rfl rfl
  | raised cause hcause _ _ hlocked hflag hcauses =>
    refine ⟨hwf, fun hfree => ?_, fun hset => ?_, hresuming⟩
    · rw [hlocked] at hfree
      cases hfree
    · rw [hcauses]
      by_cases hdisconnect : cause = .disconnect
      · subst hdisconnect
        have hold : ∀ c ∈ s.lockCauses, c = LockCause.disconnect := by
          cases hheld : s.systemLocked with
          | true => exact hs.flagged (hsingle.disconnect hcause hheld)
          | false => simp [hs.unlocked hheld]
        intro c hc
        rcases List.mem_append.mp hc with hc | hc
        · exact hold c hc
        · exact List.mem_singleton.mp hc
      · -- another cause resets the flag, or finds it not set
        have hafter : s.flagAfter cause = (s.lockedByDisconnect && !s.resuming) := by
          cases cause <;> first | rfl | exact absurd rfl hdisconnect
        rw [hflag, hafter, Bool.and_eq_true, Bool.not_eq_true'] at hset
        have := hsingle.other cause hcause hdisconnect hset.1
        rw [hset.2] at this
        cases this
  | unlocked _ _ _ _ _ _ _ _ _ _ _ _ hflag hcauses =>
    refine ⟨hwf, fun _ => hcauses, fun hset => ?_, hresuming⟩
    rw [hflag] at hset
    cases hset

/-- **Where the flag is true, the provenance of the lock is respected.** -/
theorem FlagTrue.respectsProvenance (hs : s.FlagTrue) (h : s.step env l = some s') :
    RespectsProvenance s l s' := by
  intro hheld hfree
  have hkept : s'.systemLocked ≠ s.systemLocked := by rw [hheld, hfree]; decide
  cases step_effect h with
  | keeps hk => exact absurd hk.systemLocked hkept
  | batched _ _ _ _ hk => exact absurd hk.systemLocked hkept
  | background _ _ _ _ hk | cancels _ _ _ hk | sweeps _ _ _ hk | leaves _ _ hk
  | enters _ _ _ _ _ _ _ _ _ _ hk => exact absurd hk.systemLocked hkept
  | filled fill hl hf =>
    subst hf
    exact absurd rfl hkept
  | raised cause _ _ _ hlocked =>
    rw [hlocked] at hfree
    cases hfree
  | unlocked site orders index found broker hpc hl hclean hsite =>
    refine ⟨site, orders, index, found, broker, hpc, hl, hclean, ?_⟩
    rcases hsite with rfl | hunlock
    · exact .inr ⟨rfl, hs.flagged (hs.resuming (by rw [hpc]; rfl))⟩
    · exact .inl hunlock

theorem flagTrue_initial (start : Startup) : (initial start).FlagTrue where
  wellFormed := rfl
  unlocked h := if_neg (Bool.not_eq_true _ ▸ h)
  flagged h := nomatch h
  resuming h := nomatch h

/-- **In a run that never mixes provenances the provenance of the lock is
respected at every step.** -/
theorem respectsProvenance_of_singleProvenance (env : RunnerEnv) (start : Startup)
    (ls : List Label) :
    (machine env).Along (fun s l _ => s.SingleProvenance l) (initial start) ls →
      (machine env).Along RespectsProvenance (initial start) ls :=
  Machine.along_of_step (J := FlagTrue) (fun _ _ _ hs h hC => hs.step h hC)
    (fun _ _ _ hs h _ => hs.respectsProvenance h) (flagTrue_initial start)

/-- A tick finds the broker away, and at the next turn of the loop it is
back: the attempt of an auto-resume up to its last answer. -/
def outage : List Label :=
  [ .reply (.connected false), .run, .orders (.advance 1), .run, .run, .run,
    .reply (.connected true), .reply (.positions []) ]

/-- After an outage alone the auto-resume clears the lock, and rightly. -/
theorem respectsProvenance_outage :
    (machine sampleEnv).Along RespectsProvenance (initial sampleStartup)
      ([.run, .run] ++ outage ++ [.reply (.openOrders [])]) :=
  respectsProvenance_of_singleProvenance sampleEnv sampleStartup _ (by decide +kernel)

/-- A tick in which an operator locks the system. -/
def operatorLock : List Label :=
  [ .run, .run, .reply (.connected true), .reply (.commands [.lockSystem]), .run, .run,
    .run, .orders .go, .run, .run, .run, .run, .reply (.tradedToday []), .run,
    .reply .done, .run, .orders (.advance 1), .run, .run, .run ]

/-- **An outage on top of an operator's lock clears it.** -/
theorem not_respectsProvenance :
    ¬ ∀ env start ls, (machine env).Along RespectsProvenance (initial start) ls := by
  intro h
  have hrun : ((machine sampleEnv).run (initial sampleStartup) (operatorLock ++ outage)).map
      (fun s => (s.systemLocked, s.lockCauses, s.resuming))
        = some (true, [.operator, .disconnect], true) := by
    decide +kernel
  have hlast : ((machine sampleEnv).run (initial sampleStartup)
      (operatorLock ++ outage ++ [.reply (.openOrders [])])).map (·.systemLocked)
        = some false := by
    decide +kernel
  obtain ⟨s, hs, hstate⟩ := Option.map_eq_some_iff.mp hrun
  simp only [Prod.mk.injEq] at hstate
  obtain ⟨hheld, hcauses, hresuming⟩ := hstate
  obtain ⟨s', hs', hfree⟩ := Option.map_eq_some_iff.mp hlast
  obtain ⟨t, ht, hstep⟩ := Machine.run_snoc.mp hs'
  obtain rfl := Option.some.inj (ht.symm.trans hs)
  obtain ⟨site, orders, index, found, broker, hpc, -, -, hsite⟩ :=
    Machine.along_step (h sampleEnv sampleStartup
      (operatorLock ++ outage ++ [.reply (.openOrders [])])) ht hstep hheld hfree
  rcases hsite with ⟨rest, rfl⟩ | ⟨-, hall⟩
  · rw [resuming, hpc] at hresuming
    cases hresuming
  · have := hall .operator (by rw [hcauses]; decide)
    cases this

end ExecutionRunner
