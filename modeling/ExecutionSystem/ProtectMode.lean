import ExecutionSystem.RunnerSteps

/-!
# Protect mode

While the system is locked the tick submits no entry: the lock is looked
at where the entry phase begins, and nothing raises it before the phase
ends, since only the runner itself locks. The repricers never look at it.
So an entry order is placed under the lock exactly where a repricer
replaces one.
-/

namespace ExecutionRunner

/-- **No new risk under the lock**: the step starts no call of
`broker.place_order` for an entry while the system is locked. -/
def BlocksNewRisk (s s' : ExecutionRunner) : Prop :=
  ∀ call ∈ newCalls s s', call.plan.isEntry = true → s.systemLocked = false

/-- **Entries are replaced only while the system is not locked.** -/
def ReplacesUnlocked (s : ExecutionRunner) (l : Label) : Prop :=
  ∀ (ol : OrderManager.Label) (o : OrderId) (x : OrderState) (p : Price),
    l = .orders ol → s.om.replacing ol = some (o, x, p) → x.isEntry = true →
      s.systemLocked = false

end ExecutionRunner

/-- The entry phase of the tick. -/
def RunnerPc.entryPhase : RunnerPc → Bool
  | entries _ | pollAwait .. | quoteAwait .. | submissions .. => true
  | awaiting _ (submissions ..) => true
  | _ => false

namespace ExecutionRunner

/-- The entry phase runs without the lock. -/
structure EntriesFree (s : ExecutionRunner) : Prop where
  wellFormed : s.pc.wellFormed = true
  free : s.pc.entryPhase = true → s.systemLocked = false

variable {env : RunnerEnv} {s s' : ExecutionRunner} {l : Label}

/-- A step that raises no cause locks nothing. -/
theorem systemLocked_of_raises_eq_none (he : Effect env s l s')
    (hraises : s.raises l = none) (hfree : s.systemLocked = false) :
    s'.systemLocked = false := by
  cases he with
  | keeps h => exact h.systemLocked.trans hfree
  | batched _ _ _ _ h => exact h.systemLocked.trans hfree
  | background _ _ _ _ h | cancels _ _ _ h | sweeps _ _ _ h | leaves _ _ h
  | enters _ _ _ _ _ _ _ _ _ _ h => exact h.systemLocked.trans hfree
  | filled fill hl h =>
    subst h
    exact hfree
  | raised cause hcause => rw [hraises] at hcause; cases hcause
  | unlocked _ _ _ _ _ _ _ _ _ _ _ hlocked => exact hlocked

/-- Nothing is raised in the entry phase or where it begins. -/
theorem raises_eq_none_of_entryPhase
    (hpc : s.pc.entryPhase = true ∨ s.pc = .entryStart) : s.raises l = none := by
  unfold raises
  generalize s.pc = pc at hpc
  split <;> first | rfl | (rcases hpc with h | h <;> cases h)

/-- The phase is entered without the lock, and goes on without it. -/
theorem Flow.entryPhase {pc pc' : RunnerPc} (h : Flow env s l s' pc pc')
    (hwf : pc.wellFormed = true) (hpc' : pc'.entryPhase = true) :
    pc.entryPhase = true ∨ pc = .entryStart ∧ s.systemLocked = false := by
  cases h with
  | entriesStart hfree => exact .inr ⟨rfl, hfree⟩
  | returned => cases pc' <;> cases hwf <;> first | exact .inl rfl | cases hpc'
  | managed _ hmanaging => cases pc' <;> cases hmanaging <;> cases hpc'
  | exitsGoOn _ hexiting => cases pc' <;> cases hexiting <;> cases hpc'
  | @manageAwaits _ next _ hmanaging => cases next <;> cases hmanaging <;> cases hpc'
  | @exitAwaits _ next _ hexiting => cases next <;> cases hexiting <;> cases hpc'
  | entrySkipped | polls | pollEnds | signalled | judged | batched | batchRejected
  | submissionsEnd | submissionSkipped | submits => exact .inl rfl
  | _ => cases hpc'

theorem EntriesFree.step (hs : s.EntriesFree) (h : s.step env l = some s') :
    s'.EntriesFree := by
  have he := step_effect h
  refine ⟨wellFormed_step h hs.wellFormed, fun hpc' => ?_⟩
  rcases step_flow h with ⟨-, hsame⟩ | ⟨-, hflow⟩
  · have hpc := hsame ▸ hpc'
    exact systemLocked_of_raises_eq_none he (raises_eq_none_of_entryPhase (.inl hpc))
      (hs.free hpc)
  · rcases hflow.entryPhase hs.wellFormed hpc' with hpc | ⟨hpc, hfree⟩
    · exact systemLocked_of_raises_eq_none he (raises_eq_none_of_entryPhase (.inl hpc))
        (hs.free hpc)
    · exact systemLocked_of_raises_eq_none he (raises_eq_none_of_entryPhase (.inr hpc))
        hfree

/-- **A step places no entry under the lock exactly when it replaces none
there.** -/
theorem blocksNewRisk_step_iff (hs : s.EntriesFree) (h : s.step env l = some s') :
    BlocksNewRisk s s' ↔ s.ReplacesUnlocked l := by
  constructor
  · rintro hblocks ol o x p rfl hr hentry
    obtain ⟨call, hmem, hcall, -⟩ := mem_newCalls_of_replacing h hr
    exact hblocks call hmem (hcall.trans hentry)
  · intro hreplaces call hmem hentry
    cases newCall_of_mem h hmem with
    | entered cfg rest batch d decided intent plan hl hpc =>
      exact hs.free (by rw [hpc]; rfl)
    | left plan hexit => rw [hexit] at hentry; cases hentry
    | replaced ol o x p plan hl hr hsame =>
      exact hreplaces ol o x p hl hr (hsame ▸ hentry)

theorem entriesFree_initial (start : Startup) : (initial start).EntriesFree :=
  ⟨rfl, nofun⟩

/-- **No entry is placed under the lock in a run exactly when no repricer
replaces one there.** -/
theorem blocksNewRisk_iff_replacesUnlocked (env : RunnerEnv) (start : Startup)
    (ls : List Label) :
    (machine env).Along (fun s _ s' => BlocksNewRisk s s') (initial start) ls
      ↔ (machine env).Along (fun s l _ => s.ReplacesUnlocked l) (initial start) ls :=
  Machine.along_iff_of_step (J := EntriesFree) (fun _ _ _ hs h => hs.step h)
    (fun _ _ _ hs h => blocksNewRisk_step_iff hs h) (entriesFree_initial start)

/-- The order is being repriced when the next tick locks the system. -/
def lockedRepricing : List Label :=
  entryTick (.placed 0 .submitted) ++ repricing ++ nextTick [.lockSystem]
    ++ [.reply (.tradedToday []), .run, .orders (.wake 2)]

/-- **A repricer replaces an entry order under an operator's lock.** -/
theorem not_blocksNewRisk :
    ¬ ∀ env start ls, (machine env).Along (fun s _ s' => BlocksNewRisk s s')
      (initial start) ls := by
  intro h
  have hrun : ((machine sampleEnv).run (initial sampleStartup) lockedRepricing).map
      (fun s => (s.systemLocked, s.om.placeCalls.length)) = some (true, 1) := by
    decide +kernel
  have hlast : ((machine sampleEnv).run (initial sampleStartup)
      (lockedRepricing ++ [.orders .go])).map
        (fun s => (s.om.placeCalls.drop 1).map (·.plan.isEntry)) = some [true] := by
    decide +kernel
  obtain ⟨s, hs, hstate⟩ := Option.map_eq_some_iff.mp hrun
  obtain ⟨hlocked, hcalls⟩ := Prod.mk.inj hstate
  obtain ⟨s', hs', hnew⟩ := Option.map_eq_some_iff.mp hlast
  obtain ⟨t, ht, hstep⟩ := Machine.run_snoc.mp hs'
  obtain rfl := Option.some.inj (ht.symm.trans hs)
  have hblocks := Machine.along_step
    (h sampleEnv sampleStartup (lockedRepricing ++ [.orders .go])) ht hstep
  rw [← hcalls] at hnew
  obtain ⟨call, hcall, hentry⟩ := List.map_eq_singleton_iff.mp hnew
  have hmem : call ∈ newCalls t s' := by
    rw [newCalls, hcall]
    exact List.mem_singleton_self _
  have hfree := hblocks call hmem hentry
  rw [hlocked] at hfree
  cases hfree

end ExecutionRunner
