import FocServices.Credit.Finality
import FocServices.Orders.Races
import FocServices.Orders.Withdrawals
import FocServices.Orders.Submissions
import FocServices.Orders.Reminders
import FocServices.Orders.Retries
import FocServices.Orders.Masks
import FocServices.Orders.OpenList
import FocServices.Orders.Flags
import FocServices.Orders.EventLog
import FocServices.Orders.OpenSet
import FocServices.Settlement.Contract
import FocServices.Settlement.Payments
import FocServices.Resilience.Circuit
import FocServices.Resilience.Backoff
import FocServices.Credit.LockOrder
import FocServices.Accounts.Identity
import FocServices.Messaging.Attempts
import FocServices.Suppliers.DeletionRuns
