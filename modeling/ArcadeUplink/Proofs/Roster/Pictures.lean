import ArcadeUplink.Roster.Query

/-!
# The pictures of a directory

What becomes of the pictures when the directory is changed. A cache makes up no
entry: whatever it has after an operation it had before, or was just given.
Profiles come and go without a picture being touched, and a picture is said to be
missing only where there is none (`Directory.of_mem_missingPictures`).
-/

namespace ArcadeUplink

universe u v

namespace Recency

variable {κ : Type u} {ν : Type v} [DecidableEq κ] {c : Recency κ ν} {k : κ} {v : ν} {x : κ × ν}

theorem mem_of_peek? (h : c.peek? k = some v) : (k, v) ∈ c.entries := by
  obtain ⟨before, after, heq, -⟩ := List.lookup_eq_some_iff.mp h
  rw [heq]
  exact List.mem_append_right _ List.mem_cons_self

theorem mem_others : x ∈ c.others k ↔ x ∈ c.entries ∧ x.1 ≠ k :=
  List.mem_filter.trans (and_congr_right fun _ => decide_eq_true_iff)

theorem mem_put (h : x ∈ (c.put k v).2.entries) : x = (k, v) ∨ (x ∈ c.entries ∧ x.1 ≠ k) := by
  have hall : x ∈ c.others k ++ [(k, v)] := by
    unfold put at h
    dsimp only at h
    split at h
    · exact List.mem_of_mem_tail h
    · exact h
  rcases List.mem_append.mp hall with hold | hnew
  · exact .inr (mem_others.mp hold)
  · exact .inl (List.mem_singleton.mp hnew)

theorem mem_get? (h : x ∈ (c.get? k).2.entries) : x ∈ c.entries := by
  unfold get? at h
  split at h
  · next w hw =>
    rcases List.mem_append.mp h with hold | hused
    · exact (mem_others.mp hold).1
    · rw [List.mem_singleton.mp hused]
      exact mem_of_peek? hw
  · exact h

theorem mem_remove (h : x ∈ (c.remove k).2.entries) : x ∈ c.entries := (mem_others.mp h).1

end Recency

namespace Directory

variable {d : Directory} {p : PlayerNumber} {url : String} {x : PlayerNumber × Picture}

/-- Where the picture of the player at a position is, if there is such a player and he has one. -/
def place? (d : Directory) (p : PlayerNumber) : Option String :=
  ((d.profiles.get? p).map (·.pictureUrl)).filter (· ≠ "")

/-- **Profiles come and go, pictures stay.** -/
theorem setProfiles_pictures (d : Directory) (value : Json) :
    (d.setProfiles value).2.1.pictures = d.pictures := by
  unfold setProfiles
  split
  · dsimp only
    split <;> rfl
  · rfl

/-- What the host asks for brings no picture, unless it brings one of its own. -/
theorem mem_ask {query : Query} (hquery : ∀ p picture, query ≠ .setPicture p picture)
    (h : x ∈ (d.ask query).2.1.pictures.entries) : x ∈ d.pictures.entries := by
  cases query with
  | setPicture p picture => exact absurd rfl (hquery p picture)
  | setProfiles value => rwa [← d.setProfiles_pictures value]
  | poll =>
    have hpoll : d.poll.2.pictures = d.pictures := by
      unfold poll
      split <;> rfl
    rwa [← hpoll]
  | picture p => exact Recency.mem_get? h
  | removePicture p => exact Recency.mem_remove h
  | _ => exact h

/-- **Only a picture that is not here is to be had**, from where its player has it. -/
theorem of_mem_missingPictures (h : (p, url) ∈ d.missingPictures) :
    d.place? p = some url ∧ url ≠ "" ∧ d.hasPicture p = false := by
  obtain ⟨⟨q, profile⟩, hmem, heq⟩ := List.mem_map.mp h
  obtain ⟨rfl, rfl⟩ := Prod.mk.inj heq
  obtain ⟨hentry, hmissing⟩ := List.mem_filter.mp hmem
  simp only [Bool.and_eq_true, decide_eq_true_eq, Bool.not_eq_true'] at hmissing
  refine ⟨?_, hmissing.1, hmissing.2⟩
  unfold place?
  rw [d.profiles.get?_of_mem hentry, Option.map_some, Option.filter_some]
  exact if_pos (decide_eq_true hmissing.1)

end Directory

end ArcadeUplink
