import ExecutionSystem.RunnerSteps

/-!
# The main loop through an outage

The main loop awaits three things that may raise. `_process_tick` stands
in a `try`, `_try_auto_resume` catches inside, and the periodic
`_run_reconciliation` is bare: the exception of a broker query that raises
there ends the loop. Nothing else does.

While the broker is away the tick returns early, with the lock set and
marked as the disconnect's own. Up to the next turn of the loop nothing
clears either, so if the loop survives that far it attempts the
auto-resume (`OutageKept`).
-/

/-- How many blocks there are at most between the end of a tick and the
attempt of an auto-resume at the next turn of the loop. -/
def RunnerPc.beforeResume : RunnerPc → Option ℕ
  | tickDone => some 5
  | reconcilePositions .periodic .. => some 4
  | reconcileOrders .periodic .. => some 3
  | sleeping _ => some 2
  | loopTop => some 1
  | pauseWait => some 0
  | _ => none

namespace ExecutionRunner

/-- The loop ends only where the stop event is set. -/
def EndsByStop (s s' : ExecutionRunner) : Prop :=
  s'.pc = .exited → s.pc = .exited ∨ s.stopRequested = true

/-- A broker query of the periodic reconciliation raises. -/
def PeriodicRaises (s : ExecutionRunner) (l : Label) : Prop :=
  s.pc.reconciling = some .periodic ∧ l = .reply .raised

variable {env : RunnerEnv} {s s' : ExecutionRunner} {l : Label}

/-- A query that raises in a periodic reconciliation ends the loop. -/
theorem crashed_of_periodicRaises (h : s.step env l = some s') (hr : s.PeriodicRaises l) :
    s'.pc = .crashed := by
  obtain ⟨hpc, rfl⟩ := hr
  simp only [step, Option.ite_none_right_eq_some] at h
  replace h := h.2
  generalize s.pc = pc at hpc h
  cases pc with
  | reconcilePositions site orders internal =>
    obtain rfl := Option.some.inj hpc
    obtain rfl := Option.some.inj h
    rfl
  | reconcileOrders site orders index found =>
    obtain rfl := Option.some.inj hpc
    obtain rfl := Option.some.inj h
    rfl
  | _ => cases hpc

/-- Nothing else does. -/
theorem periodicRaises_of_crashed (h : s.step env l = some s')
    (hwf : s.pc.wellFormed = true) (hpc : s.pc ≠ .crashed) (hpc' : s'.pc = .crashed) :
    s.PeriodicRaises l := by
  rcases step_flow h with ⟨-, hsame⟩ | ⟨-, hflow⟩
  · exact absurd (hsame.symm.trans hpc') hpc
  · rw [hpc'] at hflow
    generalize hp : s.pc = pc at hflow
    cases hflow with
    | reconcileCrashes hsite hl => exact ⟨hp ▸ hsite, hl⟩
    | returned => rw [hp] at hwf; cases hwf
    | managed _ hmanaging => cases hmanaging
    | exitsGoOn _ hexiting => cases hexiting

theorem endsByStop_step (h : s.step env l = some s') (hwf : s.pc.wellFormed = true) :
    EndsByStop s s' := by
  intro hpc'
  rcases step_flow h with ⟨-, hsame⟩ | ⟨-, hflow⟩
  · exact .inl (hsame.symm.trans hpc')
  · rw [hpc'] at hflow
    generalize hp : s.pc = pc at hflow
    cases hflow with
    | loopEnds hstop | pauseEnds hstop | sleepEnds hstop => exact .inr hstop
    | returned => rw [hp] at hwf; cases hwf
    | managed _ hmanaging => cases hmanaging
    | exitsGoOn _ hexiting => cases hexiting

/-! ## The outage -/

/-- **The lock is the disconnect's**, and the runner stands between a tick
and the next attempt of an auto-resume, `n` blocks away at most. -/
structure Outage (n : ℕ) (s : ExecutionRunner) : Prop where
  systemLocked : s.systemLocked = true
  lockedByDisconnect : s.lockedByDisconnect = true
  beforeResume : s.pc.beforeResume = some n

/-- **An outage leaves the loop running and locked**: a tick that finds the
broker away ends in it; from there every block of the runner comes closer
to the auto-resume, unless the loop is told to stop, and nothing clears
the lock on the way. -/
structure OutageKept (s : ExecutionRunner) (l : Label) (s' : ExecutionRunner) :
    Prop where
  starts : s.pc = .tickConnected → l = .reply (.connected false) → s'.Outage 5
  goesOn : ∀ n, s.Outage n →
    l.ofRunner = false ∧ s'.Outage n
      ∨ l.ofRunner = true ∧ (∃ m < n, s'.Outage m)
      ∨ s'.pc = .resumeConnected ∧ s'.systemLocked = true ∧ s'.lockedByDisconnect = true
      ∨ s'.pc = .exited ∧ s.stopRequested = true

/-- Nothing clears the lock between two ticks. -/
theorem Outage.lock_step {n : ℕ} (ho : s.Outage n) (he : Effect env s l s') :
    s'.systemLocked = true ∧ s'.lockedByDisconnect = true := by
  cases he with
  | keeps h | batched _ _ _ _ h | background _ _ _ _ h | cancels _ _ _ h | sweeps _ _ _ h
  | leaves _ _ h | enters _ _ _ _ _ _ _ _ _ _ h =>
    exact ⟨h.systemLocked.trans ho.systemLocked,
      h.lockedByDisconnect.trans ho.lockedByDisconnect⟩
  | filled fill hl h =>
    subst h
    exact ⟨ho.systemLocked, ho.lockedByDisconnect⟩
  | raised cause _ _ _ hlocked hflag =>
    -- the flag is cleared only while the runner resumes
    have hresuming : s.resuming = false := by
      have := ho.beforeResume
      unfold resuming
      split
      · rename_i hpc
        rw [hpc] at this
        cases this
      · rfl
    refine ⟨hlocked, hflag.trans ?_⟩
    cases cause <;> simp [flagAfter, hresuming, ho.lockedByDisconnect]
  | unlocked site orders index found broker hpc hl hclean hsite =>
    have hbefore := ho.beforeResume
    rw [hpc] at hbefore
    rcases hsite with rfl | ⟨rest, rfl⟩ <;> cases hbefore

/-- One block of an outage. -/
theorem Outage.step {n : ℕ} (ho : s.Outage n) (h : s.step env l = some s')
    (hr : ¬ s.PeriodicRaises l) :
    l.ofRunner = false ∧ s'.Outage n
      ∨ l.ofRunner = true ∧ (∃ m < n, s'.Outage m)
      ∨ s'.pc = .resumeConnected ∧ s'.systemLocked = true ∧ s'.lockedByDisconnect = true
      ∨ s'.pc = .exited ∧ s.stopRequested = true := by
  obtain ⟨hlocked, hflag⟩ := ho.lock_step (step_effect h)
  rcases step_flow h with ⟨hl, hsame⟩ | ⟨hl, hflow⟩
  · exact .inl ⟨hl, hlocked, hflag, hsame ▸ ho.beforeResume⟩
  · have hcloser : ∀ m, s'.pc.beforeResume = some m → m < n →
        l.ofRunner = true ∧ ∃ m < n, s'.Outage m :=
      fun m hpc' hm => ⟨hl, m, hm, hlocked, hflag, hpc'⟩
    -- every place before the resume leads to a closer one; the others are impossible
    have hbefore := ho.beforeResume
    generalize hp : s.pc = pc at hflow hbefore
    generalize hp' : s'.pc = pc' at hflow hcloser ⊢
    cases hflow with
    | loopEnds hstop | pauseEnds hstop | sleepEnds hstop =>
      exact .inr (.inr (.inr ⟨rfl, hstop⟩))
    | resumes => exact .inr (.inr (.inl ⟨rfl, hlocked, hflag⟩))
    | ticks hfree =>
      rw [ho.systemLocked, ho.lockedByDisconnect] at hfree
      cases hfree
    | reconcileCrashes hsite hraised => exact absurd ⟨hp ▸ hsite, hraised⟩ hr
    | loopGoesOn | reconcileDue | sleeps | wakes | periodicEnds =>
      obtain rfl := Option.some.inj hbefore
      exact .inr (.inl (hcloser _ rfl (by decide)))
    | @reconcileAsks site _ _ _ _ =>
      cases site with
      | periodic =>
        obtain rfl := Option.some.inj hbefore
        exact .inr (.inl (hcloser _ rfl (by decide)))
      | _ => cases hbefore
    | @resumeReconciled pc hsite | @unlockReconciled pc _ hsite =>
      cases pc <;> cases hsite <;> cases hbefore
    | @managed pc _ hmanaging | @manageAwaits pc _ hmanaging | @manageEnds pc hmanaging =>
      cases pc <;> cases hmanaging <;> cases hbefore
    | @exitsGoOn pc _ hexiting | @exitAwaits pc _ hexiting | @exitsEnd pc hexiting =>
      cases pc <;> cases hexiting <;> cases hbefore
    | _ => cases hbefore

/-- A tick that finds the broker away. -/
theorem outage_of_disconnected (h : s.step env (.reply (.connected false)) = some s')
    (hpc : s.pc = .tickConnected) : s'.Outage 5 := by
  simp only [step, Option.ite_none_right_eq_some, hpc] at h
  obtain rfl := Option.some.inj h.2
  exact ⟨rfl, rfl, rfl⟩

/-! ## The loop -/

theorem wellFormed_initial (start : Startup) : (initial start).pc.wellFormed = true := rfl

/-- **The loop survives a run exactly when no broker query of its periodic
reconciliation raises in it.** It ends only by the stop event, and in a
run that it survives an outage leaves it running and locked up to the
attempt of an auto-resume. -/
theorem loopSurvives_iff (env : RunnerEnv) (start : Startup) (ls : List Label) :
    ((machine env).Throughout (fun s => s.pc ≠ .crashed) (initial start) ls
        ↔ (machine env).Along (fun s l _ => ¬ s.PeriodicRaises l) (initial start) ls)
      ∧ (machine env).Along (fun s _ s' => EndsByStop s s') (initial start) ls
      ∧ ((machine env).Along (fun s l _ => ¬ s.PeriodicRaises l) (initial start) ls →
          (machine env).Along OutageKept (initial start) ls) := by
  refine ⟨?_, ?_, fun hC => ?_⟩
  · have hstart : (initial start).pc ≠ .crashed := nofun
    rw [Machine.throughout_iff_along, and_iff_right hstart]
    exact Machine.along_target_iff (J := fun s => s.pc.wellFormed = true)
      (fun _ _ _ hwf h => wellFormed_step h hwf)
      (fun _ _ _ hwf hpc h =>
        ⟨fun hpc' hr => hpc' (crashed_of_periodicRaises h hr),
          fun hr hpc' => hr (periodicRaises_of_crashed h hwf hpc hpc')⟩)
      (wellFormed_initial start) hstart
  · exact Machine.along_of_step' (J := fun s => s.pc.wellFormed = true)
      (fun _ _ _ hwf h => wellFormed_step h hwf)
      (fun _ _ _ hwf h => endsByStop_step h hwf) (wellFormed_initial start)
  · exact Machine.along_of_step (J := fun _ => True) (fun _ _ _ _ _ _ => trivial)
      (fun _ _ _ _ h hr =>
        ⟨fun hpc hl => outage_of_disconnected (hl ▸ h) hpc, fun _ ho => ho.step h hr⟩)
      trivial hC

/-- The run that goes wrong: the broker is away for longer than the
reconciliation interval. -/
def outagePastTheInterval : List Label :=
  [ .run, .run, .reply (.connected false), .run,
    .orders (.advance 60), .run, .run, .run, .reply (.connected false),
    .reply (.connected false), .run, .reply .raised ]

/-- The loop does not survive every outage. -/
theorem not_loopSurvives :
    ¬ ∀ env start ls,
      (machine env).Throughout (fun s => s.pc ≠ .crashed) (initial start) ls := by
  intro h
  obtain ⟨s, hrun, hpc⟩ := Option.map_eq_some_iff.mp
    (show ((machine sampleEnv).run (initial sampleStartup) outagePastTheInterval).map
        (fun s => match s.pc with | .crashed => true | _ => false) = some true
      by decide +kernel)
  refine h sampleEnv sampleStartup _ _ s List.prefix_rfl hrun ?_
  split at hpc
  · assumption
  · cases hpc

end ExecutionRunner
