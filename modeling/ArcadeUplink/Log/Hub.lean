import ArcadeUplink.Log.Entry

/-!
# Delivering log entries

A hub hands every entry to the sinks that are registered at the time, in the
order of their registration. All handles of a hub share its list of sinks. A
collecting sink keeps what it got, and keeps it also when it is no longer
registered.
-/

namespace ArcadeUplink.Log

inductive Sink where
  /-- Hands entries on to the surrounding program. -/
  | forward
  /-- Stores entries; the number tells collecting sinks apart. -/
  | collect (id : Nat)
  /-- Calls the host with the message. -/
  | call
deriving DecidableEq, Repr

/-- A hub with the registered sinks, what each collecting sink holds, and the messages that
the host was called with. -/
structure Hub where
  sinks : List Sink := []
  collected : List (List Entry) := []
  called : List String := []
deriving Repr, Inhabited

namespace Hub

def silent : Hub := {}

def forwarding : Hub := { sinks := [.forward] }

/-- Registers a new collecting sink and gives its number. -/
def addCollecting (h : Hub) : Nat × Hub :=
  let id := h.collected.length
  (id, { h with sinks := h.sinks ++ [.collect id], collected := h.collected ++ [[]] })

/-- Registers a sink that calls the host. -/
def addCall (h : Hub) : Hub := { h with sinks := h.sinks ++ [.call] }

/-- Removes every sink. What was collected stays. -/
def clear (h : Hub) : Hub := { h with sinks := [] }

def sinkCount (h : Hub) : Nat := h.sinks.length

def deliver (e : Entry) (h : Hub) : Sink → Hub
  | .forward => h
  | .collect id => { h with collected := h.collected.modify id (· ++ [e]) }
  | .call => { h with called := h.called ++ [e.message] }

/-- Hands an entry to every registered sink. -/
def log (h : Hub) (e : Entry) : Hub := h.sinks.foldl (deliver e) h

def records (h : Hub) (id : Nat) : List Entry := h.collected.getD id []

/-- What the collecting sink `id` holds of at least the given severity. -/
def recordsFrom (h : Hub) (id : Nat) (least : Level) : List Entry :=
  (h.records id).filter fun e => least.code ≤ e.level.code

def occursIn (part : List Char) : List Char → Bool
  | [] => part.isEmpty
  | c :: cs => part.isPrefixOf (c :: cs) || occursIn part cs

/-- Whether the collecting sink `id` holds an entry of a level whose message has a part. -/
def contains (h : Hub) (id : Nat) (level : Level) (part : String) : Bool :=
  (h.records id).any fun e => e.level = level && occursIn part.toList e.message.toList

def clearSink (h : Hub) (id : Nat) : Hub := { h with collected := h.collected.modify id fun _ => [] }

def describe (h : Hub) : String :=
  "Logger \x7b num_sinks: " ++ toString h.sinkCount ++ " \x7d"

end Hub

end ArcadeUplink.Log
