import LambdaEthereumConsensus.StateTransition.Types

/-
  LambdaEthereumConsensus.Validator.ValidatorSet — the attestation flow of
  `LambdaEthereumConsensus.ValidatorSet` (`validator/validator_set.ex`) and the attester
  duties of `Validator.Duties` (`validator/duties.ex`), as a state machine driven by
  `notify_tick/2` and `notify_head/3`.

  The set holds, per epoch, the attester duties of its validators by slot. A tick in the
  second third of a slot, and every new head (of any slot, however old), attest with the
  duties of that slot not yet attested (`maybe_attests/4`), then keep only those, marked
  attested. A tick in the last third keeps only the slot's aggregator duties
  (`maybe_publish_attestation_aggregates/3`). Before either, `update_state/4` computes the
  duties of the epoch and the next where they are missing.

  Duty computation reads a beacon state; it is a parameter, `computeAttesters`, of which
  nothing is assumed but that it gives each validator at most one duty in the epoch
  (`OneDutyPerEpoch`). Proposals, payloads, sync committees and subnet subscriptions touch
  neither the attester duties nor the attestations and are left out; each call of
  `Validator.attest/4` is recorded as an `Attest`.

  `merge_duties_and_prune/3` drops the epochs before the previous one and merges in the
  duties `compute_duties_for_epochs/4` computed, which start from all of the set's duties:
  the dropped epochs come back, so an epoch's duties are computed once and never dropped
  (`computeDuties_duties`). With that, every run of ticks and heads, in any order and with
  any slots, calls `Validator.attest/4` at most once per validator and epoch
  (`run_attests_once`).
-/

namespace LambdaEthereumConsensus.Validator

open LambdaEthereumConsensus.StateTransition

/-! ## Duties -/

/-- `Duties.attester_duty()`, the fields the attestation flow reads. -/
structure AttesterDuty where
  validatorIndex : Nat
  attested? : Bool
  shouldAggregate? : Bool
  deriving DecidableEq, Repr

/-- An epoch's attester duties by slot, `duties[epoch][:attesters]`; a slot without duties
    has none (`|| []`). -/
abbrev AttesterDutiesPerSlot := Nat → List AttesterDuty

/-- The set's duties: an epoch's attester duties, where computed. -/
abbrev DutiesMap := Nat → Option AttesterDutiesPerSlot

namespace Duties

/-- `attesters/3`. -/
def attesters (duties : DutiesMap) (epoch slot : Nat) : List AttesterDuty :=
  ((duties epoch).map (· slot)).getD []

/-- `current_attesters/3`: the slot's duties not yet attested. -/
def currentAttesters (duties : DutiesMap) (epoch slot : Nat) : List AttesterDuty :=
  (attesters duties epoch slot).filter (!·.attested?)

/-- `current_aggregators/3`: the slot's duties still to aggregate. -/
def currentAggregators (duties : DutiesMap) (epoch slot : Nat) : List AttesterDuty :=
  (attesters duties epoch slot).filter (·.shouldAggregate?)

/-- `update_duties!/5` on the attesters: `put_in/3` raises on an epoch without duties. -/
def updateDuties! (duties : DutiesMap) (epoch slot : Nat) (updated : List AttesterDuty) : Option DutiesMap := do
  let perSlot ← duties epoch
  pure (Function.update duties epoch (some (Function.update perSlot slot updated)))

/-- `attested/1`. -/
def attested (duty : AttesterDuty) : AttesterDuty := { duty with attested? := true }

/-- `aggregated/1`. -/
def aggregated (duty : AttesterDuty) : AttesterDuty := { duty with shouldAggregate? := false }

/-- `compute_duties_for_epochs/4` on the attesters: each epoch's from the beacon state at the
    given slot and head, put into the map it starts from. -/
def computeDutiesForEpochs (computeAttesters : Nat → Nat → Option Root → AttesterDutiesPerSlot)
    (dutiesMap : DutiesMap) (epochsAndStartSlots : List (Nat × Nat)) (headRoot : Option Root) : DutiesMap :=
  epochsAndStartSlots.foldl (fun dutiesMap (epoch, slot) =>
    Function.update dutiesMap epoch (some (computeAttesters epoch slot headRoot))) dutiesMap

end Duties

/-! ## The set -/

/-- The part of a slot a tick is for. -/
inductive Third where
  | firstThird
  | secondThird
  | lastThird
  deriving DecidableEq, Repr

/-- A call of `Validator.attest/4`: the validator, the slot and the head root it signs. -/
structure Attest where
  validatorIndex : Nat
  slot : Nat
  headRoot : Option Root
  deriving DecidableEq, Repr

/-- `%ValidatorSet{}`: `slot` and `head_root` are `nil` until the first update, and the
    validators map is read for its indices only. -/
structure ValidatorSet where
  slot : Option Nat
  headRoot : Option Root
  duties : DutiesMap
  validators : List Nat

/-- A call of the set. -/
inductive Event where
  | tick (slot : Nat) (third : Third)
  | head (slot : Nat) (headRoot : Root)

section ValidatorSet

variable (spec : ChainSpec) (computeAttesters : Nat → Nat → Option Root → AttesterDutiesPerSlot)

/-- `Misc.compute_start_slot_at_epoch/1`. -/
def computeStartSlotAtEpoch (epoch : Nat) : Nat := epoch * spec.slotsPerEpoch

namespace ValidatorSet

/-- `update_slot_and_head/3`. -/
def updateSlotAndHead (set : ValidatorSet) (slot : Nat) (headRoot : Option Root) : ValidatorSet :=
  if set.slot = some slot ∧ set.headRoot = headRoot then set else { set with slot := some slot, headRoot }

/-- `merge_duties_and_prune/3`: `Map.merge/2` of the set's duties from the previous epoch on
    with the new ones, which win. -/
def mergeDutiesAndPrune (newDuties : DutiesMap) (currentEpoch : Nat) (set : ValidatorSet) : ValidatorSet :=
  let pruned : DutiesMap := fun oldEpoch =>
    if (oldEpoch : Int) < (currentEpoch : Int) - 1 then none else set.duties oldEpoch
  { set with duties := fun epoch => newDuties epoch <|> pruned epoch }

/-- `compute_duties/4`: the duties of the epoch and the next, where missing. -/
def computeDuties (set : ValidatorSet) (epoch slot : Nat) (headRoot : Option Root) : ValidatorSet :=
  if set.validators = [] then set
  else if (set.duties epoch).isSome ∧ (set.duties (epoch + 1)).isSome then set
  else
    let epochsToCalculate := [(epoch, slot), (epoch + 1, computeStartSlotAtEpoch spec (epoch + 1))].filter
      fun (e, _) => (set.duties e).isNone
    mergeDutiesAndPrune (Duties.computeDutiesForEpochs computeAttesters set.duties epochsToCalculate headRoot)
      epoch set

/-- `update_state/4`. -/
def updateState (set : ValidatorSet) (epoch slot : Nat) (headRoot : Option Root) : ValidatorSet :=
  computeDuties spec computeAttesters (updateSlotAndHead set slot headRoot) epoch slot headRoot

/-- `update_duties/5` on the attesters. -/
def updateDuties (updated : List AttesterDuty) (set : ValidatorSet) (epoch slot : Nat) : Option ValidatorSet := do
  let duties ← Duties.updateDuties! set.duties epoch slot updated
  pure { set with duties }

/-- `maybe_attests/4`: every duty of the slot not yet attested attests, and the slot keeps
    those duties, attested. -/
def maybeAttests (set : ValidatorSet) (epoch slot : Nat) (headRoot : Option Root) :
    Option (ValidatorSet × List Attest) :=
  match Duties.currentAttesters set.duties epoch slot with
  | [] => some (set, [])
  | attesterDuties => do
    let attests := attesterDuties.map fun duty => ⟨duty.validatorIndex, slot, headRoot⟩
    let set ← updateDuties (attesterDuties.map Duties.attested) set epoch slot
    pure (set, attests)

/-- `maybe_publish_attestation_aggregates/3`: the slot keeps its aggregator duties only,
    aggregated. -/
def maybePublishAttestationAggregates (set : ValidatorSet) (epoch slot : Nat) : Option ValidatorSet :=
  match Duties.currentAggregators set.duties epoch slot with
  | [] => some set
  | aggregatorDuties => updateDuties (aggregatorDuties.map Duties.aggregated) set epoch slot

/-- `process_tick/3`. -/
def processTick (set : ValidatorSet) (epoch slot : Nat) : Third → Option (ValidatorSet × List Attest)
  | .firstThird => some (set, [])
  | .secondThird => maybeAttests set epoch slot set.headRoot
  | .lastThird => (maybePublishAttestationAggregates set epoch slot).map (·, [])

/-- `notify_tick/2`. -/
def notifyTick (set : ValidatorSet) (slot : Nat) (third : Third) : Option (ValidatorSet × List Attest) :=
  if set.validators = [] then some (set, [])
  else
    let epoch := computeEpochAtSlot spec slot
    processTick (updateState spec computeAttesters set epoch slot set.headRoot) epoch slot third

/-- `notify_head/3`. -/
def notifyHead (set : ValidatorSet) (slot : Nat) (headRoot : Root) : Option (ValidatorSet × List Attest) :=
  let epoch := computeEpochAtSlot spec slot
  if set.validators = [] then some (updateState spec computeAttesters set epoch slot (some headRoot), [])
  else maybeAttests (updateState spec computeAttesters set epoch slot (some headRoot)) epoch slot (some headRoot)

/-- A call of the set, and the attestations it makes; `none` where it raises. -/
def step (set : ValidatorSet) : Event → Option (ValidatorSet × List Attest)
  | .tick slot third => notifyTick spec computeAttesters set slot third
  | .head slot headRoot => notifyHead spec computeAttesters set slot headRoot

/-- A run of calls, and all the attestations they make. -/
def run (set : ValidatorSet) : List Event → Option (ValidatorSet × List Attest)
  | [] => some (set, [])
  | event :: events => do
    let (set, attests) ← step spec computeAttesters set event
    let (set, attests') ← run set events
    pure (set, attests ++ attests')

end ValidatorSet

/-! ## At most one attestation per validator and epoch -/

/-- The slots of an epoch. -/
def epochSlots (epoch : Nat) : List Nat :=
  (List.range spec.slotsPerEpoch).map (computeStartSlotAtEpoch spec epoch + ·)

/-- The validators of an epoch's attester duties, slot after slot. -/
def dutyIndices (perSlot : AttesterDutiesPerSlot) (epoch : Nat) : List Nat :=
  (epochSlots spec epoch).flatMap fun slot => (perSlot slot).map (·.validatorIndex)

/-- No validator has two attester duties in the epoch. -/
def OneDutyPerEpoch (perSlot : AttesterDutiesPerSlot) (epoch : Nat) : Prop :=
  (dutyIndices spec perSlot epoch).Nodup

instance (perSlot : AttesterDutiesPerSlot) (epoch : Nat) : Decidable (OneDutyPerEpoch spec perSlot epoch) :=
  inferInstanceAs (Decidable (List.Nodup _))

theorem mem_epochSlots_iff {slot epoch : Nat} :
    slot ∈ epochSlots spec epoch ↔ computeEpochAtSlot spec slot = epoch := by
  have hpos := spec.slotsPerEpoch_pos
  simp only [epochSlots, computeStartSlotAtEpoch, computeEpochAtSlot, List.mem_map, List.mem_range]
  constructor
  · rintro ⟨k, hk, rfl⟩
    rw [Nat.mul_comm, Nat.add_comm, Nat.add_mul_div_left _ _ hpos, Nat.div_eq_of_lt hk, Nat.zero_add]
  · rintro rfl
    exact ⟨slot % spec.slotsPerEpoch, Nat.mod_lt _ hpos, by rw [Nat.mul_comm]; exact Nat.div_add_mod _ _⟩

/-- In an epoch with one duty per validator, two duties of one validator are at one slot. -/
theorem OneDutyPerEpoch.slot_eq {perSlot : AttesterDutiesPerSlot} {epoch slot₁ slot₂ : Nat}
    {d₁ d₂ : AttesterDuty} (hone : OneDutyPerEpoch spec perSlot epoch)
    (hslot₁ : slot₁ ∈ epochSlots spec epoch) (hslot₂ : slot₂ ∈ epochSlots spec epoch)
    (hd₁ : d₁ ∈ perSlot slot₁) (hd₂ : d₂ ∈ perSlot slot₂) (hindex : d₁.validatorIndex = d₂.validatorIndex) :
    slot₁ = slot₂ := by
  by_contra hne
  have : Std.Symm (Function.onFun List.Disjoint fun slot => (perSlot slot).map (·.validatorIndex)) :=
    ⟨fun _ _ h => h.symm⟩
  have hdisjoint := (List.nodup_flatMap.mp hone).2.forall hslot₁ hslot₂ hne
  exact hdisjoint (List.mem_map_of_mem hd₁) (hindex ▸ List.mem_map_of_mem hd₂)

/-- The validators of a slot's duties have no repeats. -/
theorem OneDutyPerEpoch.nodup_slot {perSlot : AttesterDutiesPerSlot} {epoch slot : Nat}
    (hone : OneDutyPerEpoch spec perSlot epoch) (hslot : slot ∈ epochSlots spec epoch) :
    ((perSlot slot).map (·.validatorIndex)).Nodup :=
  (List.nodup_flatMap.mp hone).1 slot hslot

/-- Keeping at a slot only some of its duties keeps one duty per validator. -/
theorem OneDutyPerEpoch.update {perSlot : AttesterDutiesPerSlot} {epoch slot : Nat} {updated : List AttesterDuty}
    (hone : OneDutyPerEpoch spec perSlot epoch)
    (hsub : (updated.map (·.validatorIndex)).Sublist ((perSlot slot).map (·.validatorIndex))) :
    OneDutyPerEpoch spec (Function.update perSlot slot updated) epoch := by
  refine hone.sublist (List.Sublist.flatMap_right _ fun s _ => ?_)
  by_cases hs : s = slot
  · subst hs
    simpa using hsub
  · simp [Function.update_of_ne hs]

/-- The validator of an attestation and the epoch of its slot, its target. -/
def validatorAndEpoch (a : Attest) : Nat × Nat := (a.validatorIndex, computeEpochAtSlot spec a.slot)

/-- The invariant of a run: every epoch's duties give each validator at most one duty; a
    validator that attested in an epoch has no duty of it left unattested; and no validator
    attested twice in an epoch. -/
structure Invariant (set : ValidatorSet) (attests : List Attest) : Prop where
  oneDuty : ∀ epoch perSlot, set.duties epoch = some perSlot → OneDutyPerEpoch spec perSlot epoch
  attested : ∀ a ∈ attests, ∃ perSlot, set.duties (computeEpochAtSlot spec a.slot) = some perSlot ∧
    ∀ slot ∈ epochSlots spec (computeEpochAtSlot spec a.slot), ∀ d ∈ perSlot slot,
      d.validatorIndex = a.validatorIndex → d.attested? = true
  once : (attests.map (validatorAndEpoch spec)).Nodup

/-- Attestations whose validator has no duty left unattested in their epoch, each with a
    validator and epoch not already attested, keep the invariant. -/
theorem Invariant.append {set : ValidatorSet} {attests new : List Attest} (hinv : Invariant spec set attests)
    (hattested : ∀ a ∈ new, ∃ perSlot, set.duties (computeEpochAtSlot spec a.slot) = some perSlot ∧
      ∀ slot ∈ epochSlots spec (computeEpochAtSlot spec a.slot), ∀ d ∈ perSlot slot,
        d.validatorIndex = a.validatorIndex → d.attested? = true)
    (honce : ((attests ++ new).map (validatorAndEpoch spec)).Nodup) :
    Invariant spec set (attests ++ new) where
  oneDuty := hinv.oneDuty
  attested a ha := (List.mem_append.mp ha).elim (hinv.attested a) (hattested a)
  once := honce

/-- Duties that keep every epoch's duties, and add only epochs of one duty per validator,
    keep the invariant. -/
theorem Invariant.of_duties {set set' : ValidatorSet} {attests : List Attest} (hinv : Invariant spec set attests)
    (hkept : ∀ epoch perSlot, set.duties epoch = some perSlot → set'.duties epoch = some perSlot)
    (hone : ∀ epoch perSlot, set'.duties epoch = some perSlot → OneDutyPerEpoch spec perSlot epoch) :
    Invariant spec set' attests where
  oneDuty := hone
  attested a ha := by
    obtain ⟨perSlot, hsome, hall⟩ := hinv.attested a ha
    exact ⟨perSlot, hkept _ _ hsome, hall⟩
  once := hinv.once

/-- Replacing a slot's duties by some of them, each attested where the one it comes from was,
    keeps the invariant. -/
theorem Invariant.replaceSlot {set : ValidatorSet} {attests : List Attest} {epoch slot : Nat}
    {perSlot : AttesterDutiesPerSlot} {updated : List AttesterDuty} (hinv : Invariant spec set attests)
    (hsome : set.duties epoch = some perSlot) (hslot : slot ∈ epochSlots spec epoch)
    (hsub : (updated.map (·.validatorIndex)).Sublist ((perSlot slot).map (·.validatorIndex)))
    (hfrom : ∀ d ∈ updated, ∃ d₀ ∈ perSlot slot, d₀.validatorIndex = d.validatorIndex ∧
      (d₀.attested? = true → d.attested? = true)) :
    Invariant spec { set with duties := Function.update set.duties epoch (some (Function.update perSlot slot updated)) }
      attests where
  oneDuty e p h := by
    dsimp only at h
    by_cases he : e = epoch
    · subst he
      simp only [Function.update_self, Option.some.injEq] at h
      subst h
      exact (hinv.oneDuty e perSlot hsome).update spec hsub
    · rw [Function.update_of_ne he] at h
      exact hinv.oneDuty e p h
  attested a ha := by
    dsimp only
    obtain ⟨p₀, hp₀, hall⟩ := hinv.attested a ha
    by_cases he : computeEpochAtSlot spec a.slot = epoch
    · -- the attestation's epoch is the one updated: its duties were all attested
      rw [he] at hp₀ hall ⊢
      rw [hsome, Option.some.injEq] at hp₀
      subst hp₀
      refine ⟨_, Function.update_self .., fun s hs d hd hindex => ?_⟩
      by_cases hss : s = slot
      · subst hss
        rw [Function.update_self] at hd
        obtain ⟨d₀, hd₀, hindex₀, hattested⟩ := hfrom d hd
        exact hattested (hall s hs d₀ hd₀ (hindex₀.trans hindex))
      · rw [Function.update_of_ne hss] at hd
        exact hall s hs d hd hindex
    · exact ⟨p₀, by rwa [Function.update_of_ne he], hall⟩
  once := hinv.once

/-- The duties of a validator attested at a slot are all attested afterwards, there being
    none at another slot of the epoch. -/
theorem attested_after_attest {perSlot : AttesterDutiesPerSlot} {epoch slot : Nat} {d : AttesterDuty}
    (hone : OneDutyPerEpoch spec perSlot epoch) (hslot : slot ∈ epochSlots spec epoch) (hd : d ∈ perSlot slot)
    {updated : List AttesterDuty} (hupdated : ∀ d' ∈ updated, d'.attested? = true) :
    ∀ s ∈ epochSlots spec epoch, ∀ d' ∈ Function.update perSlot slot updated s,
      d'.validatorIndex = d.validatorIndex → d'.attested? = true := by
  intro s hs d' hd' hindex
  by_cases hss : s = slot
  · subst hss
    rw [Function.update_self] at hd'
    exact hupdated d' hd'
  · rw [Function.update_of_ne hss] at hd'
    exact absurd (hone.slot_eq spec hs hslot hd' hd hindex) hss

namespace ValidatorSet

/-! ### Duty computation -/

/-- An epoch not computed keeps its duties. -/
theorem computeDutiesForEpochs_of_not_mem {dutiesMap : DutiesMap} {epochsAndStartSlots : List (Nat × Nat)}
    {headRoot : Option Root} {epoch : Nat} (hnot : ∀ e ∈ epochsAndStartSlots, e.1 ≠ epoch) :
    Duties.computeDutiesForEpochs computeAttesters dutiesMap epochsAndStartSlots headRoot epoch = dutiesMap epoch := by
  induction epochsAndStartSlots generalizing dutiesMap with
  | nil => rfl
  | cons e rest ih =>
    obtain ⟨e₁, e₂⟩ := e
    simp only [Duties.computeDutiesForEpochs, List.foldl_cons] at ih ⊢
    rw [ih fun e' he' => hnot e' (List.mem_cons_of_mem _ he'),
      Function.update_of_ne (hnot _ List.mem_cons_self).symm]

theorem computeDutiesForEpochs_cases {dutiesMap : DutiesMap} {epochsAndStartSlots : List (Nat × Nat)}
    {headRoot : Option Root} {epoch : Nat} {perSlot : AttesterDutiesPerSlot}
    (h : Duties.computeDutiesForEpochs computeAttesters dutiesMap epochsAndStartSlots headRoot epoch = some perSlot) :
    dutiesMap epoch = some perSlot ∨ ∃ slot, perSlot = computeAttesters epoch slot headRoot := by
  induction epochsAndStartSlots generalizing dutiesMap with
  | nil => exact .inl h
  | cons e rest ih =>
    obtain ⟨e₁, e₂⟩ := e
    simp only [Duties.computeDutiesForEpochs, List.foldl_cons] at ih h
    rcases ih h with hold | hnew
    · by_cases he : epoch = e₁
      · subst he
        simp only [Function.update_self, Option.some.injEq] at hold
        exact .inr ⟨e₂, hold.symm⟩
      · rw [Function.update_of_ne he] at hold
        exact .inl hold
    · exact .inr hnew

/-- Pruning is undone by the merge: the new duties hold every epoch the set had. -/
theorem mergeDutiesAndPrune_duties {newDuties : DutiesMap} {currentEpoch : Nat} {set : ValidatorSet}
    (hkept : ∀ epoch perSlot, set.duties epoch = some perSlot → newDuties epoch = some perSlot) :
    (mergeDutiesAndPrune newDuties currentEpoch set).duties = newDuties := by
  funext epoch
  simp only [mergeDutiesAndPrune]
  cases hnew : newDuties epoch with
  | some perSlot => rfl
  | none =>
    -- an epoch the new duties lack, the set lacked too
    cases hold : set.duties epoch with
    | none => simp
    | some perSlot => simp [hkept epoch perSlot hold] at hnew

/-- Computing the duties of epochs that had none, and merging them in, keeps every epoch's
    duties and adds computed ones. -/
theorem mergeDutiesAndPrune_computed (set : ValidatorSet) (epoch : Nat) (headRoot : Option Root)
    {epochsToCalculate : List (Nat × Nat)} (hmissing : ∀ e ∈ epochsToCalculate, set.duties e.1 = none) :
    let set' := mergeDutiesAndPrune
      (Duties.computeDutiesForEpochs computeAttesters set.duties epochsToCalculate headRoot) epoch set
    (∀ e perSlot, set.duties e = some perSlot → set'.duties e = some perSlot) ∧
    (∀ e perSlot, set'.duties e = some perSlot →
      set.duties e = some perSlot ∨ ∃ slot, perSlot = computeAttesters e slot headRoot) := by
  have hkept : ∀ e perSlot, set.duties e = some perSlot →
      Duties.computeDutiesForEpochs computeAttesters set.duties epochsToCalculate headRoot e = some perSlot := by
    intro e perSlot h
    rw [computeDutiesForEpochs_of_not_mem computeAttesters fun e' he' heq => by simp [heq ▸ hmissing e' he'] at h]
    exact h
  intro set'
  have hduties : set'.duties = _ := mergeDutiesAndPrune_duties hkept
  rw [hduties]
  exact ⟨hkept, fun e perSlot h => computeDutiesForEpochs_cases computeAttesters h⟩

/-- Computing duties keeps every epoch's duties and adds those of the epochs that had none. -/
theorem computeDuties_duties (set : ValidatorSet) (epoch slot : Nat) (headRoot : Option Root) :
    (∀ e perSlot, set.duties e = some perSlot →
      (computeDuties spec computeAttesters set epoch slot headRoot).duties e = some perSlot) ∧
    (∀ e perSlot, (computeDuties spec computeAttesters set epoch slot headRoot).duties e = some perSlot →
      set.duties e = some perSlot ∨ ∃ slot, perSlot = computeAttesters e slot headRoot) := by
  unfold computeDuties
  split
  · exact ⟨fun _ _ h => h, fun _ _ h => .inl h⟩
  split
  · exact ⟨fun _ _ h => h, fun _ _ h => .inl h⟩
  -- only epochs without duties are computed
  refine mergeDutiesAndPrune_computed computeAttesters set epoch headRoot fun e he => ?_
  simpa using (List.mem_filter.mp he).2

theorem updateSlotAndHead_duties (set : ValidatorSet) (slot : Nat) (headRoot : Option Root) :
    (updateSlotAndHead set slot headRoot).duties = set.duties := by
  unfold updateSlotAndHead
  split <;> rfl

/-- The state update keeps the invariant, where computed duties give each validator at most
    one duty in the epoch. -/
theorem updateState_invariant
    (hcompute : ∀ epoch slot headRoot, OneDutyPerEpoch spec (computeAttesters epoch slot headRoot) epoch)
    {set : ValidatorSet} {attests : List Attest} (hinv : Invariant spec set attests)
    (epoch slot : Nat) (headRoot : Option Root) :
    Invariant spec (updateState spec computeAttesters set epoch slot headRoot) attests := by
  have hduties := updateSlotAndHead_duties set slot headRoot
  obtain ⟨hkept, hnew⟩ := computeDuties_duties spec computeAttesters (updateSlotAndHead set slot headRoot)
    epoch slot headRoot
  refine hinv.of_duties spec (fun e perSlot h => hkept e perSlot (hduties ▸ h)) fun e perSlot h => ?_
  rcases hnew e perSlot h with hold | ⟨s, rfl⟩
  · exact hinv.oneDuty e perSlot (hduties ▸ hold)
  · exact hcompute e s headRoot

/-! ### Attesting and aggregating -/

theorem currentAttesters_of_some {duties : DutiesMap} {epoch slot : Nat} {perSlot : AttesterDutiesPerSlot}
    (h : duties epoch = some perSlot) :
    Duties.currentAttesters duties epoch slot = (perSlot slot).filter (!·.attested?) := by
  simp [Duties.currentAttesters, Duties.attesters, h]

theorem currentAggregators_of_some {duties : DutiesMap} {epoch slot : Nat} {perSlot : AttesterDutiesPerSlot}
    (h : duties epoch = some perSlot) :
    Duties.currentAggregators duties epoch slot = (perSlot slot).filter (·.shouldAggregate?) := by
  simp [Duties.currentAggregators, Duties.attesters, h]

/-- A slot with duties to act on is in an epoch with duties. -/
theorem exists_duties_of_attesters_ne_nil {duties : DutiesMap} {epoch slot : Nat}
    (h : Duties.attesters duties epoch slot ≠ []) : ∃ perSlot, duties epoch = some perSlot := by
  cases hsome : duties epoch with
  | none => simp [Duties.attesters, hsome] at h
  | some perSlot => exact ⟨perSlot, rfl⟩

theorem updateDuties_of_some {set : ValidatorSet} {epoch slot : Nat} {perSlot : AttesterDutiesPerSlot}
    (h : set.duties epoch = some perSlot) (updated : List AttesterDuty) :
    updateDuties updated set epoch slot =
      some { set with duties := Function.update set.duties epoch (some (Function.update perSlot slot updated)) } := by
  simp [updateDuties, Duties.updateDuties!, h]

/-- Attesting at a slot of the epoch succeeds and keeps the invariant. -/
theorem maybeAttests_invariant {set : ValidatorSet} {attests : List Attest} {epoch slot : Nat}
    (hinv : Invariant spec set attests) (hepoch : epoch = computeEpochAtSlot spec slot) (headRoot : Option Root) :
    ∃ set' new, maybeAttests set epoch slot headRoot = some (set', new) ∧ Invariant spec set' (attests ++ new) := by
  have hslot : slot ∈ epochSlots spec epoch := (mem_epochSlots_iff spec).mpr hepoch.symm
  unfold maybeAttests
  split
  · exact ⟨set, [], rfl, by simpa using hinv⟩
  rename_i hne
  have hattesters : Duties.attesters set.duties epoch slot ≠ [] := fun h =>
    hne (by simp [Duties.currentAttesters, h])
  obtain ⟨perSlot, hsome⟩ := exists_duties_of_attesters_ne_nil hattesters
  simp only [currentAttesters_of_some hsome, updateDuties_of_some hsome]
  refine ⟨_, _, rfl, ?_⟩
  have hone := hinv.oneDuty epoch perSlot hsome
  have hsub : (((perSlot slot).filter (!·.attested?)).map (·.validatorIndex)).Sublist
      ((perSlot slot).map (·.validatorIndex)) := List.filter_sublist.map _
  have hsub' : ((((perSlot slot).filter (!·.attested?)).map Duties.attested).map (·.validatorIndex)).Sublist
      ((perSlot slot).map (·.validatorIndex)) := by
    simpa [Duties.attested, Function.comp_def] using hsub
  have hinv' := hinv.replaceSlot spec hsome hslot hsub' fun d hd => by
    obtain ⟨d₀, hd₀, rfl⟩ := List.mem_map.mp hd
    exact ⟨d₀, (List.mem_filter.mp hd₀).1, rfl, fun _ => rfl⟩
  refine hinv'.append spec (fun a ha => ?_) ?_
  · -- the new attestations are of the slot, whose duties are now attested
    obtain ⟨d, hd, rfl⟩ := List.mem_map.mp ha
    rw [← hepoch]
    exact ⟨_, Function.update_self .., attested_after_attest spec hone hslot (List.mem_filter.mp hd).1
      fun d' hd' => by obtain ⟨_, _, rfl⟩ := List.mem_map.mp hd'; rfl⟩
  · -- no validator attests twice at the slot, nor again after attesting in the epoch
    rw [List.map_append, List.nodup_append]
    refine ⟨hinv.once, ?_, ?_⟩
    · simpa [List.map_map, Function.comp_def, validatorAndEpoch, ← hepoch] using
        ((hone.nodup_slot spec hslot).sublist hsub).map
          (fun _ _ h => (Prod.mk.inj h).1 : Function.Injective fun v : Nat => (v, epoch))
    · intro p hold p' hnew heq
      obtain ⟨a, ha, rfl⟩ := List.mem_map.mp hold
      obtain ⟨a', ha', rfl⟩ := List.mem_map.mp hnew
      obtain ⟨d, hd, rfl⟩ := List.mem_map.mp ha'
      simp only [validatorAndEpoch, Prod.mk.injEq] at heq
      obtain ⟨hindex, hsame⟩ := heq
      -- the validator attested in the epoch before, so its duty here is attested
      obtain ⟨p₀, hp₀, hall⟩ := hinv.attested a ha
      rw [hsame, ← hepoch, hsome, Option.some.injEq] at hp₀
      subst hp₀
      have hattested := hall slot (by rw [hsame, ← hepoch]; exact hslot) d (List.mem_filter.mp hd).1 hindex.symm
      have hunattested := (List.mem_filter.mp hd).2
      simp [hattested] at hunattested

/-- Publishing aggregates at a slot of the epoch succeeds and keeps the invariant. -/
theorem maybePublishAttestationAggregates_invariant {set : ValidatorSet} {attests : List Attest}
    {epoch slot : Nat} (hinv : Invariant spec set attests) (hepoch : epoch = computeEpochAtSlot spec slot) :
    ∃ set', maybePublishAttestationAggregates set epoch slot = some set' ∧ Invariant spec set' attests := by
  have hslot : slot ∈ epochSlots spec epoch := (mem_epochSlots_iff spec).mpr hepoch.symm
  unfold maybePublishAttestationAggregates
  split
  · exact ⟨set, rfl, hinv⟩
  rename_i hne
  have hattesters : Duties.attesters set.duties epoch slot ≠ [] := fun h =>
    hne (by simp [Duties.currentAggregators, h])
  obtain ⟨perSlot, hsome⟩ := exists_duties_of_attesters_ne_nil hattesters
  simp only [currentAggregators_of_some hsome, updateDuties_of_some hsome]
  refine ⟨_, rfl, ?_⟩
  -- the slot keeps its aggregators, each as attested as before
  have hsub : ((((perSlot slot).filter (·.shouldAggregate?)).map Duties.aggregated).map (·.validatorIndex)).Sublist
      ((perSlot slot).map (·.validatorIndex)) := by
    simpa [Duties.aggregated, Function.comp_def] using List.filter_sublist.map _
  exact hinv.replaceSlot spec hsome hslot hsub fun d hd => by
    obtain ⟨d₀, hd₀, rfl⟩ := List.mem_map.mp hd
    exact ⟨d₀, (List.mem_filter.mp hd₀).1, rfl, id⟩

theorem processTick_invariant {set : ValidatorSet} {attests : List Attest} {epoch slot : Nat}
    (hinv : Invariant spec set attests) (hepoch : epoch = computeEpochAtSlot spec slot) (third : Third) :
    ∃ set' new, processTick set epoch slot third = some (set', new) ∧ Invariant spec set' (attests ++ new) := by
  cases third with
  | firstThird => exact ⟨set, [], rfl, by simpa using hinv⟩
  | secondThird => exact maybeAttests_invariant spec hinv hepoch set.headRoot
  | lastThird =>
    obtain ⟨set', hset', hinv'⟩ := maybePublishAttestationAggregates_invariant spec hinv hepoch
    exact ⟨set', [], by simp [processTick, hset'], by simpa using hinv'⟩

section Run

variable (hcompute : ∀ epoch slot headRoot, OneDutyPerEpoch spec (computeAttesters epoch slot headRoot) epoch)
include hcompute

/-- One call succeeds and keeps the invariant. -/
theorem step_invariant {set : ValidatorSet} {attests : List Attest} (hinv : Invariant spec set attests)
    (event : Event) :
    ∃ set' new, step spec computeAttesters set event = some (set', new) ∧ Invariant spec set' (attests ++ new) := by
  cases event with
  | tick slot third =>
    simp only [step, notifyTick]
    split
    · exact ⟨set, [], rfl, by simpa using hinv⟩
    · exact processTick_invariant spec (updateState_invariant spec computeAttesters hcompute hinv _ _ _) rfl third
  | head slot headRoot =>
    simp only [step, notifyHead]
    split
    · exact ⟨_, [], rfl, by simpa using updateState_invariant spec computeAttesters hcompute hinv _ _ _⟩
    · exact maybeAttests_invariant spec (updateState_invariant spec computeAttesters hcompute hinv _ _ _) rfl _

/-- A run succeeds and keeps the invariant; induction on the calls, one step at a time. -/
theorem run_invariant {set : ValidatorSet} {attests : List Attest} (hinv : Invariant spec set attests)
    (events : List Event) :
    ∃ set' log, run spec computeAttesters set events = some (set', log) ∧ Invariant spec set' (attests ++ log) := by
  induction events generalizing set attests with
  | nil => exact ⟨set, [], rfl, by simpa using hinv⟩
  | cons event events ih =>
    obtain ⟨set₁, new, hstep, hinv₁⟩ := step_invariant spec computeAttesters hcompute hinv event
    obtain ⟨set₂, log, hrun, hinv₂⟩ := ih hinv₁
    refine ⟨set₂, new ++ log, by simp [run, hstep, hrun], ?_⟩
    rwa [← List.append_assoc]

end Run

/-- Every run of ticks and heads, in any order and with any slots, from duties of one duty per
    validator and epoch and with duty computation giving the same, succeeds and attests at most
    once per validator and epoch. -/
theorem run_attests_once
    (hcompute : ∀ epoch slot headRoot, OneDutyPerEpoch spec (computeAttesters epoch slot headRoot) epoch)
    (set : ValidatorSet) (hinit : ∀ epoch perSlot, set.duties epoch = some perSlot → OneDutyPerEpoch spec perSlot epoch)
    (events : List Event) :
    ∃ set' log, run spec computeAttesters set events = some (set', log) ∧ (log.map (validatorAndEpoch spec)).Nodup := by
  have hinv : Invariant spec set [] := ⟨hinit, by simp, List.nodup_nil⟩
  obtain ⟨set', log, hrun, hinv'⟩ := run_invariant spec computeAttesters hcompute hinv events
  exact ⟨set', log, hrun, by simpa using hinv'.once⟩

/-- The duties of the examples, on the minimal preset: validator 7 attests at the second slot of
    every epoch. -/
def secondSlotAttester : Nat → Nat → Option Root → AttesterDutiesPerSlot :=
  fun _ _ _ slot => if slot % 8 = 1 then [⟨7, false, true⟩] else []

theorem dutyIndices_secondSlotAttester (epoch slot : Nat) (headRoot : Option Root) :
    dutyIndices ChainSpec.minimal (secondSlotAttester epoch slot headRoot) epoch = [7] := by
  -- the epoch's slots are its start plus `0..7`, and the start is a multiple of 8
  have hmod : ∀ k, (computeStartSlotAtEpoch ChainSpec.minimal epoch + k) % 8 = k % 8 := fun k => by
    simp [computeStartSlotAtEpoch, ChainSpec.minimal, Nat.add_mod]
  simp only [dutyIndices, epochSlots, List.flatMap_map, secondSlotAttester, hmod]
  decide

/-- Validator 7 attests at slot 9, in epoch 1; the tick at slot 25 computes epochs 3 and 4 and
    prunes epoch 1, which the merge brings back; the head of slot 9 then finds its duty attested. -/
theorem run_attests_once_with_one_duty :
    ∃ set' log, run ChainSpec.minimal secondSlotAttester ⟨none, none, fun _ => none, [7]⟩
        [.tick 9 .secondThird, .tick 25 .firstThird, .head 9 5, .tick 25 .secondThird] = some (set', log) ∧
      (log.map (validatorAndEpoch ChainSpec.minimal)).Nodup :=
  run_attests_once ChainSpec.minimal _
    (fun epoch slot headRoot => by
      rw [OneDutyPerEpoch, dutyIndices_secondSlotAttester]
      exact List.nodup_singleton 7)
    _ (fun _ _ h => by cases h) _

-- the old head does not attest again; the tick of slot 25 attests for epoch 3
example : (run ChainSpec.minimal secondSlotAttester ⟨none, none, fun _ => none, [7]⟩
    [.tick 9 .secondThird, .tick 25 .firstThird, .head 9 5, .tick 25 .secondThird]).map (·.2) =
      some [⟨7, 9, none⟩, ⟨7, 25, some 5⟩] := by
  decide

end ValidatorSet

end ValidatorSet

end LambdaEthereumConsensus.Validator
