import ArcadeUplink.Address.Domain
import ArcadeUplink.Address.Host
import ArcadeUplink.Address.Ipv4
import ArcadeUplink.Address.Ipv6
import ArcadeUplink.Address.Punycode
import ArcadeUplink.Address.Server
import ArcadeUplink.Device.Info
import ArcadeUplink.Device.Settings
import ArcadeUplink.Device.Setup
import ArcadeUplink.Digest.Sha1
import ArcadeUplink.Digest.Sha256
import ArcadeUplink.Game.History
import ArcadeUplink.Game.Modes
import ArcadeUplink.Game.Number
import ArcadeUplink.Game.PlayerScore
import ArcadeUplink.Game.Snapshot
import ArcadeUplink.Game.Tracker
import ArcadeUplink.Identity.Signature
import ArcadeUplink.Identity.Uuid
import ArcadeUplink.Json.Basic
import ArcadeUplink.Json.Decode
import ArcadeUplink.Json.Printer
import ArcadeUplink.Json.Reader
import ArcadeUplink.Log.Entry
import ArcadeUplink.Log.Hub
import ArcadeUplink.Number.Binary64
import ArcadeUplink.Number.Decimal
import ArcadeUplink.Pool.Basic
import ArcadeUplink.Pool.Lane
import ArcadeUplink.Pool.Machine
import ArcadeUplink.Pool.Timer
import ArcadeUplink.Rehearsal.Chore
import ArcadeUplink.Rehearsal.Game
import ArcadeUplink.Rehearsal.Script
import ArcadeUplink.Rehearsal.Session
import ArcadeUplink.Rehearsal.Stage
import ArcadeUplink.Roster.Directory
import ArcadeUplink.Roster.Profile
import ArcadeUplink.Roster.Query
import ArcadeUplink.Roster.Recency
import ArcadeUplink.Server.Call
import ArcadeUplink.Server.Message
import ArcadeUplink.Server.Outcome
import ArcadeUplink.Session.Activity
import ArcadeUplink.Session.Console
import ArcadeUplink.Session.Engine
import ArcadeUplink.Session.Ledger
import ArcadeUplink.Session.Links
import ArcadeUplink.Session.Status
import ArcadeUplink.SortedMap
import ArcadeUplink.Text.Blank
import ArcadeUplink.Text.Bytes
import ArcadeUplink.Text.Hex
import ArcadeUplink.Text.Literal
import ArcadeUplink.Proofs.Address.BaseUrls
import ArcadeUplink.Proofs.Address.Hosts
import ArcadeUplink.Proofs.Address.Ipv4
import ArcadeUplink.Proofs.Address.Ipv6
import ArcadeUplink.Proofs.Console.Conveyance
import ArcadeUplink.Proofs.Console.Play
import ArcadeUplink.Proofs.Device.Identity
import ArcadeUplink.Proofs.Game.Chapters
import ArcadeUplink.Proofs.Game.Commits
import ArcadeUplink.Proofs.Game.Export
import ArcadeUplink.Proofs.Game.Setters
import ArcadeUplink.Proofs.Game.Switches
import ArcadeUplink.Proofs.Game.Table
import ArcadeUplink.Proofs.Game.Tale
import ArcadeUplink.Proofs.Game.Validity
import ArcadeUplink.Proofs.Identity.Signatures
import ArcadeUplink.Proofs.Identity.Spellings
import ArcadeUplink.Proofs.Json.Decoding
import ArcadeUplink.Proofs.Json.ReadBack
import ArcadeUplink.Proofs.Json.Unambiguous
import ArcadeUplink.Proofs.Log.Elision
import ArcadeUplink.Proofs.Machine.Course
import ArcadeUplink.Proofs.Machine.Line
import ArcadeUplink.Proofs.Machine.Stock
import ArcadeUplink.Proofs.Machine.Story
import ArcadeUplink.Proofs.Machine.Tally
import ArcadeUplink.Proofs.Machine.Turn
import ArcadeUplink.Proofs.Pool.Conservation
import ArcadeUplink.Proofs.Pool.Custody
import ArcadeUplink.Proofs.Pool.Deadlines
import ArcadeUplink.Proofs.Pool.History
import ArcadeUplink.Proofs.Pool.Hold
import ArcadeUplink.Proofs.Pool.Lanes
import ArcadeUplink.Proofs.Pool.Lifecycle
import ArcadeUplink.Proofs.Pool.Renewal
import ArcadeUplink.Proofs.Pool.Standstill
import ArcadeUplink.Proofs.Roster.LeastRecent
import ArcadeUplink.Proofs.Roster.Pictures
import ArcadeUplink.Proofs.Roster.Polling
import ArcadeUplink.Proofs.Roster.Profiles
import ArcadeUplink.Proofs.Roster.Seating
import ArcadeUplink.Proofs.Server.Uploads
import ArcadeUplink.Proofs.Session.Account
import ArcadeUplink.Proofs.Session.Answers
import ArcadeUplink.Proofs.Session.Aside
import ArcadeUplink.Proofs.Session.Beats
import ArcadeUplink.Proofs.Session.Closing
import ArcadeUplink.Proofs.Session.Conduct
import ArcadeUplink.Proofs.Session.Deeds
import ArcadeUplink.Proofs.Session.Delivery
import ArcadeUplink.Proofs.Session.Diagram
import ArcadeUplink.Proofs.Session.Edits
import ArcadeUplink.Proofs.Session.Effects
import ArcadeUplink.Proofs.Session.Filing
import ArcadeUplink.Proofs.Session.Flags
import ArcadeUplink.Proofs.Session.Gating
import ArcadeUplink.Proofs.Session.Handshake
import ArcadeUplink.Proofs.Session.Heartbeats
import ArcadeUplink.Proofs.Session.Lawful
import ArcadeUplink.Proofs.Session.Numbering
import ArcadeUplink.Proofs.Session.Origins
import ArcadeUplink.Proofs.Session.Outcome
import ArcadeUplink.Proofs.Session.Pairings
import ArcadeUplink.Proofs.Session.Parts
import ArcadeUplink.Proofs.Session.Passage
import ArcadeUplink.Proofs.Session.Pictures
import ArcadeUplink.Proofs.Session.Places
import ArcadeUplink.Proofs.Session.Recall
import ArcadeUplink.Proofs.Session.Repeats
import ArcadeUplink.Proofs.Session.Requests
import ArcadeUplink.Proofs.Session.Retention
import ArcadeUplink.Proofs.Session.Retries
import ArcadeUplink.Proofs.Session.Runs
import ArcadeUplink.Proofs.Session.Sendings
import ArcadeUplink.Proofs.Session.Signing
import ArcadeUplink.Proofs.Session.Steps
import ArcadeUplink.Proofs.Session.Stops
import ArcadeUplink.Proofs.Session.UnderWay
import ArcadeUplink.Proofs.Session.Workers
import ArcadeUplink.Proofs.Text.Csv
import ArcadeUplink.Proofs.Text.Hex
import ArcadeUplink.Proofs.Text.Parts
