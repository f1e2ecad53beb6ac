import MsSecurity.Collector.NoLoss
import MsSecurity.EventHub.AtLeastOnce
import MsSecurity.EventHub.HubIdentity
import MsSecurity.EventHub.LostUpdate
import MsSecurity.EventHub.OptimisticLock
import MsSecurity.EventHub.OneClient
import MsSecurity.EventHub.Batch
import MsSecurity.EventHub.Sections
import MsSecurity.AlertAction.AdvancedHunting
import MsSecurity.AlertAction.UpdateIncident
import MsSecurity.AlertAction.PartialUpdate
import MsSecurity.Account.Login
import MsSecurity.Account.Authority
import MsSecurity.Collector.Odata
import MsSecurity.Collector.TokenUse
import MsSecurity.Rest.AccountRemoval
import MsSecurity.Rest.InputRemoval
import MsSecurity.Rest.Stanza
import MsSecurity.AlertAction.ExitCode
import MsSecurity.Account.AccessToken
import MsSecurity.AlertAction.HuntOverrides
import MsSecurity.Settings.ProxyCache
import MsSecurity.Account.DelegatedLogin
import MsSecurity.EventHub.Balance
import MsSecurity.Collector.StartDate
import MsSecurity.Account.Roles
import MsSecurity.Collector.PageHeaders
import MsSecurity.Collector.HttpErrors
import MsSecurity.Api.ErrorResponse
import MsSecurity.Account.ValidationErrors
import MsSecurity.Account.Credentials
import MsSecurity.Collector.Rejection
import MsSecurity.EventHub.Summary
import MsSecurity.EventHub.LoadBalance
import MsSecurity.Python.JsonText
import MsSecurity.Secrets.PasswordMap
import MsSecurity.Secrets.AllSecrets
import MsSecurity.Secrets.AccountPage
import MsSecurity.Secrets.RetriedPasswords
import MsSecurity.EventHub.Processors
