import QuerySearch.Search.Review
import QuerySearch.Main
import QuerySearch.Component.Lemmas
import QuerySearch.Proofs.Sql.Values
import QuerySearch.Proofs.Sql.Statements
import QuerySearch.Proofs.Binding.Named
import QuerySearch.Proofs.Sql.RoundTrip
import QuerySearch.Proofs.Binding.Clauses
import QuerySearch.Proofs.Binding.Scoping
import QuerySearch.Proofs.Outcomes
import QuerySearch.Proofs.Projection.Narrowed
import QuerySearch.Proofs.Projection.Narrowing
import QuerySearch.Proofs.Resolve.Chains
import QuerySearch.Proofs.Resolve.Values
import QuerySearch.Proofs.Resolve.Supplied
import QuerySearch.Proofs.Meaning.Preservation
import QuerySearch.Proofs.Search.Names
import QuerySearch.Proofs.Binding.Projections
import QuerySearch.Proofs.Enumerate.Affordable
import QuerySearch.Proofs.Resolve.Selective
import QuerySearch.Proofs.Binding.SortKeys
import QuerySearch.Proofs.Search.Passes
import QuerySearch.Proofs.Search.Lists
import QuerySearch.Proofs.Enumerate.Grouped
import QuerySearch.Proofs.Search.Conditions
import QuerySearch.Proofs.Search.Ending
import QuerySearch.Proofs.Search.Protocol
import QuerySearch.Proofs.Search.Targets
import QuerySearch.Proofs.Search.DistinctOrder
import QuerySearch.Proofs.Component.Encoding
import QuerySearch.Proofs.Component.Identity
import QuerySearch.Proofs.Search.Seeded
import QuerySearch.Proofs.Sql.Parsing
import QuerySearch.Proofs.Search.Reviewing
import QuerySearch.Proofs.Binding.OutputKeys
import QuerySearch.Proofs.Search.Regrouping
import QuerySearch.Proofs.Sql.Reprinting
import QuerySearch.Proofs.Projection.Frames
import QuerySearch.Proofs.Enumerate.Combinations
import QuerySearch.Proofs.Enumerate.Budgets
import QuerySearch.Proofs.Search.Comparisons
import QuerySearch.Proofs.Binding.Numbering
import QuerySearch.Proofs.Search.Fillings
import QuerySearch.Proofs.Sql.Reserved
import QuerySearch.Proofs.Cost.Siblings
