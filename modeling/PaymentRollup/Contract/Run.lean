import PaymentRollup.Contract.Methods

/-! # Runs of the contract

Anyone may make any call at any time, so a run is any sequence of calls that went through
at nondecreasing rounds, together with the log of what L1 recorded on the way.
-/
namespace PaymentRollup.Contract

variable [Crypto]

/-- A call that went through, with the states around it. -/
structure Step where
  before : State
  env : Env
  call : Call
  after : State

/-- The calls that went through so far, newest first: what L1 has recorded. -/
abbrev Log := List Step

/-- The states a deployment whose account was given `funds` can be in, after any calls by
anyone at nondecreasing rounds. -/
inductive Run (app : App) (funds : ℕ) : UInt64 → State → Log → Prop
  | create (round : UInt64) (verifierAddress : L1Address)
      (programVkeyHash recursionVkeyRoot : Word) (inboxTimeout escapeGrace : UInt64)
      (securityCouncil : L1Address) (updateDelay : UInt64) (approvalProgram : List Bytes)
      (clearStateProgram : Bytes) :
      Run app funds round (createApplication app verifierAddress programVkeyHash
        recursionVkeyRoot inboxTimeout escapeGrace securityCouncil updateDelay approvalProgram
        clearStateProgram funds) []
  | call {round : UInt64} {s s' : State} {log : Log} (h : Run app funds round s log) (env : Env)
      (call : Call) (hround : round ≤ env.round) (hok : exec app env s call = .ok s') :
      Run app funds env.round s' (⟨s, env, call, s'⟩ :: log)

/-- What may come after a state when only some calls are made: any calls `may` allows in the
state they meet, at nondecreasing rounds. -/
inductive Later (app : App) (may : State → Env → Call → Prop) (round : UInt64) (s : State) (log : Log) :
    UInt64 → State → Log → Prop
  | start : Later app may round s log round s log
  | call {round' : UInt64} {s' s'' : State} {log' : Log}
      (h : Later app may round s log round' s' log') (env : Env) (call : Call)
      (hmay : may s' env call) (hround : round' ≤ env.round) (hok : exec app env s' call = .ok s'') :
      Later app may round s log env.round s'' (⟨s', env, call, s''⟩ :: log')

section Later
variable {app : App} {may : State → Env → Call → Prop} {round round' : UInt64} {s s' : State}
  {log log' : Log}

theorem Later.run {funds : ℕ} (h : Later app may round s log round' s' log')
    (hrun : Run app funds round s log) : Run app funds round' s' log' := by
  induction h with
  | start => exact hrun
  | call _ env call _ hround hok ih => exact ih.call env call hround hok

end Later

/-- The program that runs is the one this is a model of. -/
def Call.IsUpdate : Call → Prop
  | .updateApplication _ _ => True
  | _ => False

end PaymentRollup.Contract
