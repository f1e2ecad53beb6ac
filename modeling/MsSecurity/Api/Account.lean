import MsSecurity.Api.Urls

/-!
# Accounts and what a token is asked for with
-/

namespace MsSecurity

/-- What `get_account_details` returns. -/
structure Account where
  username : Option String
  password : Option String
  tenantId : Option String
  useDelegatedPermissions : Bool
  delegatedAccName : Option String

/-- The arguments of `get_access_token`. -/
structure TokenRequest where
  clientId : Option String
  clientSecret : Option String
  urls : ApiUrls
  useDelegatedPermissions : Bool
  delegatedAccName : Option String
  environment : Option String
  addDefault : Bool

end MsSecurity
