import LambdaEthereumConsensus.Bls
import LambdaEthereumConsensus.StateTransition.Types

/-
  LambdaEthereumConsensus.StateTransition.ProposerSlashing — `process_proposer_slashing/2`
  (`state_transition/operations.ex`).

  The signing root of a header (`Accessors.get_domain/3` with the proposer domain of the
  header's epoch, then `Misc.compute_signing_root/2`) and `Mutators.slash_validator/2` are
  parameters, as is the BLS NIF.

  The headers' signatures go through `bls_verify_proposer_slashing/3`, which takes an
  `{:error, _}` from `Bls.verify/3` for a valid signature (`Bls.blsVerifyProposerSlashing_eq_true`).
  So two different headers of one slot and proposer, whose signatures the library cannot even
  read, slash the proposer (`processProposerSlashing_ignores_signature_errors`); every other
  signature check of block processing goes through `Bls.valid?/3`,
  `Bls.fast_aggregate_valid?/3` or `verify_signature/3`, which accept only `{:ok, true}`.
-/

namespace LambdaEthereumConsensus.StateTransition

open LambdaEthereumConsensus.Bls

/-- `Predicates.indices_available?/2`: every index below the number of validators. -/
def indicesAvailable? (validators : Nat) (indices : List Nat) : Bool := indices.all (· < validators)

section ProposerSlashing

variable (spec : ChainSpec) (verify : List UInt8 → List UInt8 → List UInt8 → Except String Bool)
  (signingRoot : BeaconState → BeaconBlockHeader → List UInt8)
  (slashValidator : BeaconState → Nat → Except String BeaconState)

/-- `verify_proposer_slashing/3`. -/
def verifyProposerSlashing (state : BeaconState) (proposer : Validator) (signedHeader : SignedBeaconBlockHeader) :
    Bool :=
  blsVerifyProposerSlashing verify proposer.pubkey (signingRoot state signedHeader.message) signedHeader.signature

/-- `process_proposer_slashing/2`. -/
def processProposerSlashing (state : BeaconState) (proposerSlashing : ProposerSlashing) :
    Except String BeaconState :=
  let header1 := proposerSlashing.signedHeader1.message
  let header2 := proposerSlashing.signedHeader2.message
  let validatorsSize := state.validators.length
  -- `state.validators[i]` is `nil` past the end, which the first check rules out
  match state.validators[header1.proposerIndex]? with
  | none => .error "Too high index"
  | some proposer =>
    if !indicesAvailable? validatorsSize [header1.proposerIndex] then .error "Too high index"
    else if header1.slot ≠ header2.slot then .error "Slots don't match"
    else if header1.proposerIndex ≠ header2.proposerIndex then .error "Proposer indices don't match"
    else if header1 = header2 then .error "Headers are same"
    else if !proposer.slashable? (state.currentEpoch spec) then .error "Proposer is not slashable"
    else if !([proposerSlashing.signedHeader1, proposerSlashing.signedHeader2].all
        (verifyProposerSlashing verify signingRoot state proposer)) then
      .error "Signed header 1 or 2 signature is not verified"
    else slashValidator state header1.proposerIndex

/-- A signature the library answers with an error passes `verify_proposer_slashing/3`. -/
theorem verifyProposerSlashing_of_error {state : BeaconState} {proposer : Validator}
    {signedHeader : SignedBeaconBlockHeader} {e : String}
    (h : verify proposer.pubkey (signingRoot state signedHeader.message) signedHeader.signature = .error e) :
    verifyProposerSlashing verify signingRoot state proposer signedHeader = true :=
  (blsVerifyProposerSlashing_eq_true verify).mpr (.inr ⟨e, h⟩)

/-- Two different headers of one slot and one slashable proposer slash it when `Bls.verify/3`
    fails on both signatures: nothing checks that either was signed by the proposer. -/
theorem processProposerSlashing_ignores_signature_errors {state : BeaconState}
    {proposerSlashing : ProposerSlashing} {proposer : Validator}
    (hproposer : state.validators[proposerSlashing.signedHeader1.message.proposerIndex]? = some proposer)
    (hslot : proposerSlashing.signedHeader1.message.slot = proposerSlashing.signedHeader2.message.slot)
    (hindex : proposerSlashing.signedHeader1.message.proposerIndex = proposerSlashing.signedHeader2.message.proposerIndex)
    (hdiff : proposerSlashing.signedHeader1.message ≠ proposerSlashing.signedHeader2.message)
    (hslashable : proposer.slashable? (state.currentEpoch spec) = true)
    (herror : ∀ signedHeader ∈ [proposerSlashing.signedHeader1, proposerSlashing.signedHeader2],
      ∃ e, verify proposer.pubkey (signingRoot state signedHeader.message) signedHeader.signature = .error e) :
    processProposerSlashing spec verify signingRoot slashValidator state proposerSlashing =
      slashValidator state proposerSlashing.signedHeader1.message.proposerIndex := by
  have havailable : indicesAvailable? state.validators.length [proposerSlashing.signedHeader1.message.proposerIndex] = true := by
    have hlt := (List.getElem?_eq_some_iff.mp hproposer).1
    simp [indicesAvailable?, hlt]
  have hverified : [proposerSlashing.signedHeader1, proposerSlashing.signedHeader2].all
      (verifyProposerSlashing verify signingRoot state proposer) = true := by
    rw [List.all_eq_true]
    intro signedHeader hmem
    obtain ⟨e, he⟩ := herror signedHeader hmem
    exact verifyProposerSlashing_of_error verify signingRoot he
  simp only [processProposerSlashing, hproposer]
  rw [if_neg (by simp [havailable]), if_neg (by simp [hslot]), if_neg (by simp [hindex]), if_neg hdiff,
    if_neg (by simp [hslashable]), if_neg (by simp [hverified])]

end ProposerSlashing

/-- A mainnet proposer at slot 0 and two headers that differ in their body root, under a BLS
    library that cannot read either signature: the slashing is applied. -/
theorem unreadable_signatures_slash_proposer :
    processProposerSlashing ChainSpec.mainnet (fun _ _ _ => .error "invalid signature encoding")
        (fun _ header => header.bodyRoot) (fun state _ => .ok { state with balances := [0] })
        ⟨0, [⟨[7], [1], 32000000000, false, 0, farFutureEpoch, farFutureEpoch⟩], [32000000000], [], [], 0, 0, [], ⟨0, 0⟩, ⟨0, 0⟩⟩
        ⟨⟨⟨0, 0, [], [], [1]⟩, [9]⟩, ⟨⟨0, 0, [], [], [2]⟩, [9]⟩⟩ =
      .ok ⟨0, [⟨[7], [1], 32000000000, false, 0, farFutureEpoch, farFutureEpoch⟩], [0], [], [], 0, 0, [], ⟨0, 0⟩, ⟨0, 0⟩⟩ :=
  processProposerSlashing_ignores_signature_errors ChainSpec.mainnet _ _ _ rfl rfl rfl (by decide) (by decide)
    (fun _ _ => ⟨_, rfl⟩)

end LambdaEthereumConsensus.StateTransition
