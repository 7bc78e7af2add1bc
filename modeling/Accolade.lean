import Accolade.Document.Exchange
import Accolade.Document.ExchangeReader
import Accolade.Journal.Call
import Accolade.Journal.LoadLines
import Accolade.Response
import Accolade.Service
import Accolade.Fact.Writer
import Accolade.Cycle.Steps
import Accolade.Proofs.Document.Sameness
import Accolade.Proofs.Context
import Accolade.Proofs.Truth
import Accolade.Proofs.Catalogue.Closure
import Accolade.Proofs.Catalogue.Failures
import Accolade.Proofs.Cycle.Caps
import Accolade.Proofs.Cycle.Retractions
import Accolade.Proofs.Cycle.Passes
import Accolade.Proofs.Cycle.Balance
import Accolade.Proofs.Cycle.Subjects
import Accolade.Proofs.Cycle.Order
import Accolade.Proofs.Cycle.Serial
import Accolade.Proofs.Service.History
import Accolade.Proofs.Cycle.Inertia
import Accolade.Proofs.Cycle.Quiescence
import Accolade.Proofs.Cycle.LastPass
import Accolade.Proofs.Cycle.Containment
import Accolade.Proofs.Cycle.Recovery
import Accolade.Proofs.Reading
import Accolade.Proofs.Rule.Writing
import Accolade.Proofs.Fact.Postings
import Accolade.Proofs.Catalogue.Accounts
import Accolade.Proofs.Catalogue.Strictness
import Accolade.Proofs.Catalogue.WellFormed
import Accolade.Proofs.Cycle.WriteScopes
import Accolade.Proofs.Cycle.Metered
import Accolade.Proofs.Cycle.Repetition
import Accolade.Proofs.Cycle.Resolution
import Accolade.Proofs.Cycle.PassLimit
import Accolade.Proofs.Fact.Itemised
import Accolade.Proofs.Catalogue.Warnings
import Accolade.Proofs.Rule.ConditionMeaning
import Accolade.Proofs.Document.StrictSameness
import Accolade.Proofs.Rule.ConditionValue
import Accolade.Proofs.Backoff
import Accolade.Proofs.Service.Recording
import Accolade.Proofs.Service.Attribution
import Accolade.Proofs.Profile
