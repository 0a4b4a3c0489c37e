import Bourse.Dispatcher
import Bourse.History
import Bourse.Main
import Bourse.Proofs.Engine.PlainBook
import Bourse.Proofs.Engine.Priority
import Bourse.Proofs.Engine.Reflection
import Bourse.Proofs.Engine.Bystander
import Bourse.Proofs.Engine.Faultless
import Bourse.Proofs.Engine.Uncrossed
import Bourse.Proofs.Desk.Takeover
import Bourse.Proofs.Desk.Mirror
import Bourse.Proofs.Desk.Conservation
import Bourse.Proofs.Desk.EventLog
import Bourse.Proofs.Desk.Closing
import Bourse.Proofs.Desk.Lifetimes
import Bourse.Proofs.Desk.Settling
import Bourse.Proofs.Http.Acceptance
import Bourse.Proofs.Http.Readings
import Bourse.Proofs.Desk.Recording
import Bourse.Proofs.Http.Floor
import Bourse.Proofs.Engine.Admission
import Bourse.Proofs.Engine.Footprint
import Bourse.Proofs.Desk.Outages
import Bourse.Proofs.Journal
import Bourse.Proofs.Engine.Headroom
import Bourse.Proofs.Engine.Splitting
import Bourse.Proofs.Engine.Restoring
import Bourse.Proofs.Engine.Depth
import Bourse.Proofs.Book.Adding
import Bourse.Proofs.Http.Streaming
import Bourse.Proofs.Relay.Company
import Bourse.Proofs.Journal.Files
import Bourse.Proofs.History
import Bourse.Proofs.Decimal.Value
import Bourse.Proofs.Decimal.Product
import Bourse.Proofs.Market.PriceForm
import Bourse.Proofs.Market.RequestPrice
