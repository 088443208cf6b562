import ArcadeUplink.Proofs.Session.Flags
import ArcadeUplink.Proofs.Session.Steps

/-!
# What a step makes of the ledger

The ledger after a turn of an activity, by a table. Whoever records a snapshot,
takes up a sending or gives one up, looks for what is missing, notes what the
server has accepted or closes a game edits the ledger. Nobody else does, and the
outcome of an upload edits nothing before it is noted (`act_ledger`).
-/

namespace ArcadeUplink

namespace Ledger

/-- The ledger after a turn of an activity. -/
def turned (l : Ledger) (now : Nat) : Activity → Ledger
  | .record s => (l.record now s).ledger
  | .upload id => l.lower .snapshot id
  | .withdrawUpload id .. => l.lower .snapshot id
  | .history id => l.lower .history id
  | .withdrawHistory id _ => l.lower .history id
  | .scanLedger => l.retry.2.2
  | .acknowledge id k => (l.acknowledge id k).2
  | .close id => l.erase id
  | _ => l

/-- There is no flag to be lowered of a game that is not in the ledger. -/
theorem lower_of_none {l : Ledger} {id : String} (h : l.get? id = none) (k : Sending) :
    l.lower k id = l := by
  refine SortedMap.ext_entries
    ((List.map_congr_left fun e he => ?_).trans (List.map_id l.entries))
  refine congrArg (Prod.mk e.1) (if_neg fun heq => ?_)
  rw [Std.LawfulEqCmp.eq_of_compare heq, SortedMap.get?_of_mem l he] at h
  cases h

theorem turned_of_not_isOfGames {a : Activity} (h : a.isOfGames = false) (l : Ledger) (now : Nat) :
    l.turned now a = l := by
  cases a <;> first | rfl | cases h

end Ledger

namespace Engine

variable {now : Nat} {self : Option Nat} {e : Engine} {p : Workers} {a : Activity}
  {reply : Option Reply} {r : Result}

theorem ledger_recordStep (h : e.recordStep now p a = some r) :
    r.world.ledger = e.ledger.turned now a := by
  cases a with
  | sendSnapshot s =>
    obtain rfl := Option.some.inj h
    split
    · rfl
    · split <;> rfl
  | record s =>
    obtain rfl := Option.some.inj h
    split <;> rfl
  | submit uploads histories =>
    match uploads, histories with
    | j :: uploads, histories =>
      obtain rfl := Option.some.inj h
      split <;> rfl
    | [], j :: histories =>
      obtain rfl := Option.some.inj h
      split <;> rfl
    | [], [] =>
      obtain rfl := Option.some.inj h
      rfl
  | withdrawUpload j uploads histories =>
    obtain rfl := Option.some.inj h
    rfl
  | withdrawHistory j histories =>
    obtain rfl := Option.some.inj h
    rfl
  | _ => cases h

theorem ledger_uploadStep (h : e.uploadStep p a = some r) :
    r.world.ledger = e.ledger.turned now a := by
  cases a with
  | upload j =>
    obtain rfl := Option.some.inj h
    split
    · rfl
    · next hnone => exact (Ledger.lower_of_none (Option.map_eq_none_iff.mp hnone) .snapshot).symm
  | uploadGate u i =>
    obtain rfl := Option.some.inj h
    split <;> rfl
  | callUpload u i =>
    obtain rfl := Option.some.inj h
    rfl
  | acknowledge j i =>
    obtain rfl := Option.some.inj h
    split <;> rfl
  | history j =>
    obtain rfl := Option.some.inj h
    split
    · rfl
    · next hnone => exact (Ledger.lower_of_none (Option.map_eq_none_iff.mp hnone) .history).symm
  | historyGate u =>
    obtain rfl := Option.some.inj h
    split <;> rfl
  | callHistory u =>
    obtain rfl := Option.some.inj h
    rfl
  | close j =>
    obtain rfl := Option.some.inj h
    rfl
  | _ => cases h

/-- **The ledger after every step** is the one of the table. -/
theorem act_ledger (h : program.act now self e p a reply = some r) :
    r.world.ledger = e.ledger.turned now a := by
  cases act_part h with
  | aside ha haside => rw [haside.ledger, Ledger.turned_of_not_isOfGames ha]
  | replied ha hresume => exact ledger_resume_upload hresume ha
  | scanned hscan =>
    obtain rfl := Option.some.inj hscan
    rfl
  | recorded hrec => exact ledger_recordStep hrec
  | uploaded hup => exact ledger_uploadStep hup

/-- The same, of a turn in a run. -/
theorem RunFrom.ledger_of_turn {start : Nat} {ts : List Transition} {t : Transition} {m : System}
    {lane : Option Pool.Lane} (h : RunFrom e start ts m) (hmem : t ∈ ts)
    (ht : t.turn? = some ⟨lane, a, reply⟩) :
    t.after.world.ledger = t.before.world.ledger.turned t.before.now a := by
  obtain ⟨pre, post, rfl⟩ := List.append_of_mem hmem
  obtain ⟨self, r, hact, htook⟩ := RunFrom.turn h ht
  exact (congrArg ledger htook.world).trans (act_ledger hact)

end Engine

end ArcadeUplink
