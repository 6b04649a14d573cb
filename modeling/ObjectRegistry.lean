import ObjectRegistry.Json.Fields
import ObjectRegistry.Session
import ObjectRegistry.FileTree
import ObjectRegistry.Main
import ObjectRegistry.Proofs.RecordBytes
import ObjectRegistry.Proofs.Table
import ObjectRegistry.Proofs.Consistent
import ObjectRegistry.Proofs.Listing
import ObjectRegistry.Proofs.Access
import ObjectRegistry.Proofs.Pages
import ObjectRegistry.Proofs.Counters
import ObjectRegistry.Proofs.Soundness
import ObjectRegistry.Proofs.Runs
import ObjectRegistry.Proofs.Accounts
import ObjectRegistry.Proofs.Ledger
import ObjectRegistry.Proofs.ByteOrder
import ObjectRegistry.Proofs.Visits
import ObjectRegistry.Proofs.Failures
import ObjectRegistry.Proofs.Steps
import ObjectRegistry.Proofs.Lifetimes
import ObjectRegistry.Proofs.Numerals
import ObjectRegistry.Proofs.Refusals
import ObjectRegistry.Proofs.Paging
import ObjectRegistry.Proofs.Restarts
import ObjectRegistry.Proofs.StoreFile
import ObjectRegistry.Proofs.FileTree
import ObjectRegistry.Proofs.DatabaseFile
import ObjectRegistry.Proofs.Processes
import ObjectRegistry.Proofs.Independence
import ObjectRegistry.Proofs.Unreachable
import ObjectRegistry.Proofs.Duplicates
import ObjectRegistry.Proofs.Registering
import ObjectRegistry.Proofs.Purges
import ObjectRegistry.Proofs.Leases
import ObjectRegistry.Proofs.Minting
import ObjectRegistry.Proofs.Exhaustion
import ObjectRegistry.Proofs.DamagedPages
import ObjectRegistry.Proofs.Circles
import ObjectRegistry.Proofs.TokenGrammar
import ObjectRegistry.Proofs.MintedIds
