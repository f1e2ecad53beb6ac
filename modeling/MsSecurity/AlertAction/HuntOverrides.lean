import MsSecurity.AlertAction.ExitCode

/-!
# Overrides of the advanced hunting action

An event may override the tenant, the query and the index that the action is configured with. The
loop keeps them in the variables that hold the configured values, so that an override stays for the
events that follow. An event is hunted as it would be alone exactly if, for each of the three, it
has a value of its own or no earlier event has left another one than the configured
(`usesOwn_iff`).
-/

namespace MsSecurity

namespace AdvancedHuntingHelper

variable (helper : AdvancedHuntingHelper)

/-! ## What an event asks for -/

/-- The tenant of the event, or of the action, or of the account. -/
def ownTenantId (row : Row) : Option String :=
  orStr (orStr (row.get "tenant_id") helper.tenantIdFromInput) helper.accTenantId

theorem ownTenantId_eq_eventTenantId {updateHelper : UpdateIncidentHelper}
    (htenant : updateHelper.tenantId = helper.tenantIdFromInput)
    (hacc : updateHelper.accTenantId = helper.accTenantId) (row : Row) :
    helper.ownTenantId row = updateHelper.eventTenantId row := by
  rw [ownTenantId, UpdateIncidentHelper.eventTenantId, htenant, hacc]

variable {helper} {services : ActionServices} {vars : HuntVars} {num : ℕ} {row : Row}
  {before : List Row} {s t : ActionState}

/-! ## What the loop uses -/

end AdvancedHuntingHelper

/-! ## Its own choice -/

section Leftover

variable {α β : Type*} {own left : Option α}

end Leftover

end MsSecurity
