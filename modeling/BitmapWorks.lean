import BitmapWorks.Behaviour
import BitmapWorks.Bitmap
import BitmapWorks.Bytes
import BitmapWorks.Container
import BitmapWorks.Crew
import BitmapWorks.Decoding
import BitmapWorks.Dispatcher.Basic
import BitmapWorks.Dispatcher.Caller
import BitmapWorks.Dispatcher.Schedule
import BitmapWorks.Dispatcher.Worker
import BitmapWorks.Drain
import BitmapWorks.Encoding
import BitmapWorks.Environment
import BitmapWorks.EnvironmentFile
import BitmapWorks.Fanout
import BitmapWorks.Fault
import BitmapWorks.FileSystem
import BitmapWorks.Format
import BitmapWorks.Frozen
import BitmapWorks.Gate
import BitmapWorks.Json
import BitmapWorks.Ledger
import BitmapWorks.Native
import BitmapWorks.Operation
import BitmapWorks.Portable
import BitmapWorks.Proofs.Bitmap.Contents
import BitmapWorks.Proofs.Bitmap.Kinds
import BitmapWorks.Proofs.Bitmap.Members
import BitmapWorks.Proofs.Bytes.Words
import BitmapWorks.Proofs.Container.Erase
import BitmapWorks.Proofs.Container.Insert
import BitmapWorks.Proofs.Container.Rules
import BitmapWorks.Proofs.Crew.Books
import BitmapWorks.Proofs.Crew.Jobs
import BitmapWorks.Proofs.Crew.Shift
import BitmapWorks.Proofs.Crew.Workshop
import BitmapWorks.Proofs.Decoding.Addresses
import BitmapWorks.Proofs.Decoding.Agreement
import BitmapWorks.Proofs.Decoding.Cut
import BitmapWorks.Proofs.Decoding.Faults
import BitmapWorks.Proofs.Decoding.RoundTrip
import BitmapWorks.Proofs.Decoding.Words
import BitmapWorks.Proofs.Dispatcher.Acts
import BitmapWorks.Proofs.Dispatcher.Aftermath
import BitmapWorks.Proofs.Dispatcher.Agenda
import BitmapWorks.Proofs.Dispatcher.Caller
import BitmapWorks.Proofs.Dispatcher.Closing
import BitmapWorks.Proofs.Dispatcher.Craft
import BitmapWorks.Proofs.Dispatcher.Deals
import BitmapWorks.Proofs.Dispatcher.Deeds
import BitmapWorks.Proofs.Dispatcher.Effort
import BitmapWorks.Proofs.Dispatcher.Forcing
import BitmapWorks.Proofs.Dispatcher.Halting
import BitmapWorks.Proofs.Dispatcher.Items
import BitmapWorks.Proofs.Dispatcher.Lifecycle
import BitmapWorks.Proofs.Dispatcher.Loop
import BitmapWorks.Proofs.Dispatcher.Outcome
import BitmapWorks.Proofs.Dispatcher.Poise
import BitmapWorks.Proofs.Dispatcher.Register
import BitmapWorks.Proofs.Dispatcher.Results
import BitmapWorks.Proofs.Dispatcher.Stages
import BitmapWorks.Proofs.Dispatcher.Steps
import BitmapWorks.Proofs.Dispatcher.Story
import BitmapWorks.Proofs.Dispatcher.Strand
import BitmapWorks.Proofs.Dispatcher.Stranding
import BitmapWorks.Proofs.Dispatcher.Tokens
import BitmapWorks.Proofs.Dispatcher.Unwinding
import BitmapWorks.Proofs.Dispatcher.Weave
import BitmapWorks.Proofs.Dispatcher.Worker
import BitmapWorks.Proofs.Encoding.Pass
import BitmapWorks.Proofs.FileSystem.Reload
import BitmapWorks.Proofs.Frozen.Copy
import BitmapWorks.Proofs.Gate.Crowd
import BitmapWorks.Proofs.Lists
import BitmapWorks.Proofs.Native.Cut
import BitmapWorks.Proofs.Native.Layout
import BitmapWorks.Proofs.Native.Watched
import BitmapWorks.Proofs.Native.Zones
import BitmapWorks.Proofs.Operation.Abandoned
import BitmapWorks.Proofs.Operation.Apart
import BitmapWorks.Proofs.Operation.Assets
import BitmapWorks.Proofs.Operation.Built
import BitmapWorks.Proofs.Operation.Delivery
import BitmapWorks.Proofs.Operation.Dues
import BitmapWorks.Proofs.Operation.Estate
import BitmapWorks.Proofs.Operation.Frame
import BitmapWorks.Proofs.Operation.Freezing
import BitmapWorks.Proofs.Operation.Keeping
import BitmapWorks.Proofs.Operation.Many
import BitmapWorks.Proofs.Operation.Progress
import BitmapWorks.Proofs.Operation.Provenance
import BitmapWorks.Proofs.Operation.Scene
import BitmapWorks.Proofs.Operation.Tallies
import BitmapWorks.Proofs.Operation.Trades
import BitmapWorks.Proofs.Portable.Cut
import BitmapWorks.Proofs.Portable.Place
import BitmapWorks.Proofs.Portable.Sequence
import BitmapWorks.Proofs.Portable.Starts
import BitmapWorks.Proofs.Settlement.Yields
import BitmapWorks.Proofs.Shelf.Contest
import BitmapWorks.Proofs.Shelf.Handles
import BitmapWorks.Proofs.Shelf.Sharing
import BitmapWorks.Proofs.Shelf.Slots
import BitmapWorks.Proofs.Stream.Offers
import BitmapWorks.Proofs.Text.Arrival
import BitmapWorks.Proofs.Text.Numbers
import BitmapWorks.Proofs.Text.Reread
import BitmapWorks.Proofs.Text.Room
import BitmapWorks.Proofs.Text.Staged
import BitmapWorks.Proofs.Text.Whole
import BitmapWorks.Rehearsal
import BitmapWorks.Settings
import BitmapWorks.Settlement
import BitmapWorks.Shelf
import BitmapWorks.Stream
import BitmapWorks.Text.Blank
import BitmapWorks.Text.Quoted
import BitmapWorks.Text.Render
import BitmapWorks.Text.Scan
import BitmapWorks.Text.Unprintable
import BitmapWorks.Window
import BitmapWorks.World
