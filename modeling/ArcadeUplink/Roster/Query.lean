import ArcadeUplink.Roster.Directory

/-!
# Asking the directory

What the host, or whoever stands in for the server, can do with a directory of
players, and what comes back.
-/

namespace ArcadeUplink.Directory

/-- What can be asked of a directory. -/
inductive Query where
  | setProfiles (value : Json)
  | poll
  | profile (p : PlayerNumber)
  | picture (p : PlayerNumber)
  | hasPicture (p : PlayerNumber)
  | setPicture (p : PlayerNumber) (picture : Picture)
  | removePicture (p : PlayerNumber)
  | missingPictures
  | describe

inductive Answer where
  | nothing
  | flag (b : Bool)
  | profile (found : Option Profile)
  | picture (found : Option Picture)
  | places (missing : List (PlayerNumber × String))
  | text (s : String)
deriving DecidableEq, Repr

/-- The first step of a query, and whether the directory has yet to say that something is
new. -/
def ask (d : Directory) : Query → Answer × Directory × List Log.Entry × Bool
  | .setProfiles v =>
    let r := d.setProfiles v
    (.flag r.1, r.2.1, r.2.2, false)
  | .poll => (.flag d.poll.1, d.poll.2, [], false)
  | .profile p => (.profile (d.profile? p), d, [], false)
  | .picture p => (.picture (d.picture? p).1, (d.picture? p).2, [], false)
  | .hasPicture p => (.flag (d.hasPicture p), d, [], false)
  | .setPicture p picture => (.nothing, d.storePicture p picture, [], true)
  | .removePicture p => (.nothing, d.dropPicture p, [], true)
  | .missingPictures => (.places d.missingPictures, d, [], false)
  | .describe => (.text d.describe, d, [], false)

def answer (d : Directory) (q : Query) : Answer × Directory × List Log.Entry :=
  let (a, d, log, news) := d.ask q
  (a, if news then d.announce else d, log)

end ArcadeUplink.Directory
