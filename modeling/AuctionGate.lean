import AuctionGate.Auction.Request
import AuctionGate.Breaker.Watch
import AuctionGate.Config.Read
import AuctionGate.Deadline
import AuctionGate.Dispatch.Network
import AuctionGate.Dispatch.Rehearsal
import AuctionGate.Gateway.CommandLine
import AuctionGate.Geo.Lookup
import AuctionGate.Json.Writer
import AuctionGate.Main
import AuctionGate.Proofs.Agenda
import AuctionGate.Proofs.Agenda.Share
import AuctionGate.Proofs.Auction.Passing
import AuctionGate.Proofs.Breaker.Agreement
import AuctionGate.Proofs.Breaker.Announced
import AuctionGate.Proofs.Breaker.Circuit
import AuctionGate.Proofs.Breaker.Crowd
import AuctionGate.Proofs.Breaker.Invariant
import AuctionGate.Proofs.Breaker.Lateness
import AuctionGate.Proofs.Breaker.Opening
import AuctionGate.Proofs.Breaker.Punctual
import AuctionGate.Proofs.Breaker.Quiet
import AuctionGate.Proofs.Breaker.Registry
import AuctionGate.Proofs.Breaker.Staleness
import AuctionGate.Proofs.Breaker.Stamped
import AuctionGate.Proofs.Breaker.Steps
import AuctionGate.Proofs.Breaker.Strangers
import AuctionGate.Proofs.Breaker.Told
import AuctionGate.Proofs.Dispatch.Accounts
import AuctionGate.Proofs.Dispatch.Apart
import AuctionGate.Proofs.Dispatch.Balance
import AuctionGate.Proofs.Dispatch.Blame
import AuctionGate.Proofs.Dispatch.Chronicle
import AuctionGate.Proofs.Dispatch.Exchanges
import AuctionGate.Proofs.Dispatch.Faults
import AuctionGate.Proofs.Dispatch.Hosts
import AuctionGate.Proofs.Dispatch.Isolation
import AuctionGate.Proofs.Dispatch.Issue
import AuctionGate.Proofs.Dispatch.Landing
import AuctionGate.Proofs.Dispatch.Probing
import AuctionGate.Proofs.Dispatch.Sequential
import AuctionGate.Proofs.Dispatch.Timely
import AuctionGate.Proofs.Dispatch.Traffic
import AuctionGate.Proofs.Dispatch.Transparent
import AuctionGate.Proofs.Dispatch.Twins
import AuctionGate.Proofs.Dispatch.Visits
import AuctionGate.Proofs.Gateway.Refreshing
import AuctionGate.Proofs.Geo.Fetching
import AuctionGate.Proofs.Geo.Frame
import AuctionGate.Proofs.Geo.Freshness
import AuctionGate.Proofs.Geo.Reach
import AuctionGate.Proofs.Geo.Rotation
import AuctionGate.Proofs.Net.Authority
import AuctionGate.Proofs.Pool.Following
import AuctionGate.Proofs.Pool.Schedule
import AuctionGate.Proofs.Telemetry.Dispatches
import AuctionGate.Text.Quoted
