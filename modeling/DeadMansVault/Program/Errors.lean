-- SUMMARY: The errors an instruction can end with.

namespace DeadMansVault

/-- The program's own error codes, in the order of their numbers. -/
inductive VaultError
  | heartbeatIntervalTooShort
  | gracePeriodTooShort
  | invalidBeneficiaryCount
  | invalidShareAllocation
  | ownerCannotBeBeneficiary
  | unauthorizedAgent
  | unauthorizedOwner
  | vaultInactive
  | vaultAlreadyExecuted
  | gracePeriodNotElapsed
  | unregisteredBeneficiary
  | heartbeatVaultMismatch
  | invalidAgentPubkey
  | agentCannotBeOwner
  | agentKeyUnchanged
  | vaultImmutable
  | insufficientVaultBalance
  | vaultStillActive
  | vaultNotExecuted
  | graceNotElapsed
  | executionFinalized
  | assetPlanRequired
  | assetPlanImmutable
  | beneficiaryMismatch
  | mintMismatch
  | tokenAccountMismatch
  | specificOutOfOrder
  | maskAlreadySet
  | notAllSharesPaid
  | tokensRemain
  | tooManyAssignments
  | duplicateNftAssignment
  | invalidBeneficiaryIndex
  | accountCountMismatch
  | invalidVaultAta
  | vaultFrozen
  | beneficiariesLockedByPlan
  | invalidFeeRecipient
  | invalidSolBequest
  | keeperBountyTooLarge
  | nothingToDistribute
  | closeDelayNotElapsed
  | heartbeatIntervalTooLong
  | gracePeriodTooLong
  | invalidPlanMint
  deriving DecidableEq, Repr

/-- Failures of the account checks that Anchor derives. -/
inductive AnchorError
  | accountNotInitialized
  | accountAlreadyInUse
  | accountNotSigner
  | constraintSeeds
  | constraintRaw
  deriving DecidableEq, Repr

/-- Failures inside the token programs. -/
inductive TokenError
  | incorrectProgramId
  | mintMismatch
  | mintDecimalsMismatch
  | ownerMismatch
  | insufficientFunds
  | nonNativeHasBalance
  | accountHasWithheldTransferFees
  | overflow
  deriving DecidableEq, Repr

inductive ProgramError
  | vault (e : VaultError)
  | anchor (e : AnchorError)
  | token (e : TokenError)
  /-- The payer of a system transfer is short of lamports. -/
  | insufficientFunds
  /-- A checked operation of the runtime or of an `overflow-checks` build overflowed. -/
  | arithmeticOverflow
  deriving DecidableEq, Repr

end DeadMansVault
