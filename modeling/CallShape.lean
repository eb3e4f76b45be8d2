import CallShape.History
import CallShape.Race.Report
import CallShape.Session.Naming
import CallShape.Session.Play
import CallShape.Proofs.Capacity
import CallShape.Proofs.Handle
import CallShape.Proofs.Order
import CallShape.Proofs.Pool
import CallShape.Proofs.Action
import CallShape.Proofs.Interning
import CallShape.Proofs.Dictionary
import CallShape.Proofs.Shard
import CallShape.Proofs.Overflow
import CallShape.Proofs.Signature
import CallShape.Proofs.Fields
import CallShape.Proofs.Text.Delimited
import CallShape.Proofs.Text.Quoted
import CallShape.Proofs.Text.Document
import CallShape.Proofs.Alignment
import CallShape.Proofs.Replacement
import CallShape.Proofs.Table
import CallShape.Proofs.Process
import CallShape.Proofs.Operation
import CallShape.Proofs.Conduct
import CallShape.Proofs.Spread
import CallShape.Proofs.Frame
import CallShape.Proofs.Canonical
import CallShape.Proofs.Flattening
import CallShape.Proofs.Staleness
import CallShape.Proofs.Placement
import CallShape.Proofs.Derived
import CallShape.Proofs.Composition
import CallShape.Proofs.Outline
import CallShape.Proofs.Reading
import CallShape.Proofs.Search
import CallShape.Proofs.Transfer
import CallShape.Proofs.Entry
import CallShape.Proofs.Opening
import CallShape.Proofs.Intake
import CallShape.Proofs.Inventory
import CallShape.Proofs.Warnings
import CallShape.Proofs.Ledger
import CallShape.Proofs.Journal
import CallShape.Proofs.Chronicle
import CallShape.Proofs.Global
import CallShape.Proofs.Dialogue
import CallShape.Proofs.Sketch
import CallShape.Proofs.Race.Interning
import CallShape.Proofs.Race.Lookup
import CallShape.Proofs.Race.Agreement
import CallShape.Proofs.Race.Counting
import CallShape.Proofs.Inspect
