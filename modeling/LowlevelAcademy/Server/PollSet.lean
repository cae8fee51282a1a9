import LowlevelAcademy.Server.Steps

/-! The poll set against the client table: which entries an iteration polls, how many of them
are still to be visited, and the invariant that ties both to the connected clients.
-/

namespace LowlevelAcademy.Server

open LowlevelAcademy.Foundations
open LowlevelAcademy.Database

/-- The connected clients, in the order of their slots. -/
def Clients.connected (states : Clients) : List Slot :=
  (List.finRange maxClients).filter fun slot => (states slot).fd ≠ -1

theorem Clients.mem_connected {states : Clients} {slot : Slot}
    : slot ∈ states.connected ↔ (states slot).fd ≠ -1 := by
  simp [Clients.connected]

theorem Clients.connected_nodup (states : Clients) : states.connected.Nodup :=
  (List.nodup_finRange maxClients).filter _

/-- At most `MAX_CLIENTS` clients are connected. -/
theorem Clients.connected_length_le (states : Clients)
    : states.connected.length ≤ maxClients := by
  have bound := List.length_filter_le (fun slot => decide ((states slot).fd ≠ -1))
    (List.finRange maxClients)
  simpa [Clients.connected] using bound

/-- Rebuilding enters the connected clients among `slots` from index `start` on, in order. It
changes no other entry and no reported event. Witness: induction on the slots.
-/
theorem rebuildFds_entry (states : Clients) (slots : List Slot) (start : Nat) (fds : Fds)
    (j : Fin (maxClients + 1))
    : rebuildFds states slots start fds j
      = ⟨if start ≤ j then
            (((slots.filter fun slot => (states slot).fd ≠ -1)[j - start]?).map
              fun slot => (states slot).fd).getD (fds j).fd
          else (fds j).fd,
          (fds j).revents⟩ := by
  induction slots generalizing start fds with
  | nil => simp [rebuildFds]
  | cons slot rest ih =>
      by_cases free : (states slot).fd = -1
      · simp only [rebuildFds, free, ne_eq, not_true, if_false, ih, List.filter_cons,
          decide_false, Bool.false_eq_true]
      · simp only [rebuildFds, free, ne_eq, not_false_iff, if_true, ih, List.filter_cons,
          decide_true, Fds.setFd]
        rcases Nat.lt_trichotomy j start with below | same | above
        · simp [show ¬ start + 1 ≤ j.val by omega, show ¬ j.val = start by omega,
            show ¬ start ≤ j.val by omega]
        · simp [same]
        · obtain ⟨k, index⟩ : ∃ k, j.val - start = k + 1 := ⟨j - start - 1, by omega⟩
          have later : j.val - (start + 1) = k := by omega
          simp [show start + 1 ≤ j.val by omega, show ¬ j.val = start by omega,
            show start ≤ j.val by omega, index, later]

/-- After a rebuild the entry behind the listening socket at distance `k` belongs to the
`k`-th connected client.
-/
theorem rebuildFds_connected (states : Clients) (fds : Fds) {k : Nat}
    (inside : k < states.connected.length)
    : (rebuildFds states (List.finRange maxClients) 1 fds
        ⟨k + 1, Nat.succ_lt_succ (lt_of_lt_of_le inside states.connected_length_le)⟩).fd
      = (states states.connected[k]).fd := by
  rw [rebuildFds_entry]
  have found : ((List.finRange maxClients).filter fun slot => (states slot).fd ≠ -1)[k]?
      = some states.connected[k] :=
    List.getElem?_eq_getElem inside
  simp only [Nat.le_add_left, if_true, Nat.add_sub_cancel, found, Option.map_some,
    Option.getD_some]

/-- The number of connected clients, as a count of slots. -/
theorem Clients.connected_length (states : Clients)
    : states.connected.length
      = (Finset.univ.filter fun slot => (states slot).fd ≠ -1).card := by
  rw [← List.toFinset_card_of_nodup states.connected_nodup]
  congr 1
  ext slot
  simp [Clients.mem_connected]

-----------------------------------------------------------------------------------------
-- The client table
-----------------------------------------------------------------------------------------

/-- The invariant of the client table: descriptors identify clients, a client is connected
exactly in `STATE_HELLO` and `STATE_MSG`, and free slots are clean.
-/
structure Clients.Tidy (states : Clients) : Prop where
  distinct
    : ∀ {slot other},
        (states slot).fd ≠ -1 → (states other).fd = (states slot).fd → other = slot
  active
    : ∀ slot,
        (states slot).fd ≠ -1 ↔ (states slot).state = .hello ∨ (states slot).state = .msg
  cleared : ∀ slot, (states slot).fd = -1 → (states slot).buffer = clearedBuffer

theorem initClients_tidy : initClients.Tidy := by
  refine ⟨?_, ?_, ?_⟩ <;> simp [initClients]

variable {states : Clients} {slot : Slot}

/-- A fresh connection in a free slot keeps the table tidy and is one client more. -/
theorem Clients.Tidy.connect {fd : Int32} (buffer : Buffer) (tidy : states.Tidy)
    (free : (states slot).fd = -1) (valid : fd ≠ -1)
    (fresh : ∀ other, (states other).fd ≠ fd)
    : Clients.Tidy (Function.update states slot ⟨fd, .hello, buffer⟩)
      ∧ (Clients.connected (Function.update states slot ⟨fd, .hello, buffer⟩)).length
        = states.connected.length + 1 := by
  constructor
  · refine ⟨?_, ?_, ?_⟩
    · intro first second
      by_cases isFirst : first = slot <;> by_cases isSecond : second = slot
      · intro _ _
        rw [isFirst, isSecond]
      · subst isFirst
        simpa [Function.update_of_ne isSecond] using fun _ same => absurd same (fresh second)
      · subst isSecond
        simp only [Function.update_of_ne isFirst, Function.update_self]
        exact fun _ same => absurd same.symm (fresh first)
      · simp only [Function.update_of_ne isFirst, Function.update_of_ne isSecond]
        exact tidy.distinct
    · intro other
      by_cases same : other = slot
      · simp [same, valid]
      · simp only [Function.update_of_ne same]
        exact tidy.active other
    · intro other
      by_cases same : other = slot
      · simp [same, valid]
      · simp only [Function.update_of_ne same]
        exact tidy.cleared other
  · have added : (Finset.univ.filter fun other =>
        (Function.update states slot ⟨fd, .hello, buffer⟩ other).fd ≠ -1)
        = insert slot (Finset.univ.filter fun other => (states other).fd ≠ -1) := by
      ext other
      by_cases same : other = slot <;> simp [same, valid]
    rw [Clients.connected_length, Clients.connected_length, added,
      Finset.card_insert_of_notMem (by simp [free])]

/-- A disconnected client leaves a tidy table with one client less. -/
theorem Clients.Tidy.disconnect (tidy : states.Tidy) (busy : (states slot).fd ≠ -1)
    : Clients.Tidy (Function.update states slot ⟨-1, .disconnected, clearedBuffer⟩)
      ∧ (Clients.connected (Function.update states slot ⟨-1, .disconnected, clearedBuffer⟩)).length
          + 1
        = states.connected.length := by
  constructor
  · refine ⟨?_, ?_, ?_⟩
    · intro first second
      by_cases isFirst : first = slot
      · simp [isFirst]
      · by_cases isSecond : second = slot
        · simp only [isSecond, Function.update_self, Function.update_of_ne isFirst]
          exact fun connected same => absurd same.symm connected
        · simp only [Function.update_of_ne isFirst, Function.update_of_ne isSecond]
          exact tidy.distinct
    · intro other
      by_cases same : other = slot
      · simp [same]
      · simp only [Function.update_of_ne same]
        exact tidy.active other
    · intro other
      by_cases same : other = slot
      · simp [same]
      · simp only [Function.update_of_ne same]
        exact tidy.cleared other
  · have removed : (Finset.univ.filter fun other =>
        (Function.update states slot ⟨-1, .disconnected, clearedBuffer⟩ other).fd ≠ -1)
        = (Finset.univ.filter fun other => (states other).fd ≠ -1).erase slot := by
      ext other
      by_cases same : other = slot <;> simp [same]
    rw [Clients.connected_length, Clients.connected_length, removed,
      Finset.card_erase_add_one (by simp [busy])]

/-- Handling a message of a connected client keeps the table tidy and every descriptor. -/
theorem Clients.Tidy.setClient {state : StateE} (buffer : Buffer) (tidy : states.Tidy)
    (busy : (states slot).fd ≠ -1) (active : state = .hello ∨ state = .msg)
    : Clients.Tidy (Function.update states slot ⟨(states slot).fd, state, buffer⟩)
      ∧ ∀ other,
          (Function.update states slot ⟨(states slot).fd, state, buffer⟩ other).fd
            = (states other).fd := by
  have kept (other : Slot)
      : (Function.update states slot ⟨(states slot).fd, state, buffer⟩ other).fd
        = (states other).fd := by
    by_cases same : other = slot <;> simp [same]
  refine ⟨⟨?_, ?_, ?_⟩, kept⟩
  · intro first second
    rw [kept, kept]
    exact tidy.distinct
  · intro other
    by_cases same : other = slot
    · simp [same, busy, active]
    · simp only [Function.update_of_ne same]
      exact tidy.active other
  · intro other
    by_cases same : other = slot
    · simp [same, busy]
    · simp only [Function.update_of_ne same]
      exact tidy.cleared other

/-- Tables with the same descriptors have the same connected clients. -/
theorem Clients.connected_congr {left right : Clients}
    (same : ∀ slot, (left slot).fd = (right slot).fd)
    : left.connected = right.connected := by
  simp only [Clients.connected, same]

-----------------------------------------------------------------------------------------
-- Entries still to be visited
-----------------------------------------------------------------------------------------

/-- How many of the entries `i` up to `polled` have events. -/
def pending (i polled : Nat) (fds : Fds) : Nat :=
  (Finset.univ.filter fun j => i ≤ j.val ∧ j.val < polled ∧ (fds j).revents ≠ 0).card

/-- An entry counts towards the pending ones when it has events. -/
theorem pending_succ (fds : Fds) {polled : Nat} (j : Fin (maxClients + 1))
    (inside : j.val < polled)
    : pending j polled fds
      = pending (j + 1) polled fds + if (fds j).revents ≠ 0 then 1 else 0 := by
  by_cases events : (fds j).revents ≠ 0
  · have split : (Finset.univ.filter fun k : Fin (maxClients + 1) =>
        j.val ≤ k.val ∧ k.val < polled ∧ (fds k).revents ≠ 0)
        = insert j (Finset.univ.filter fun k : Fin (maxClients + 1) =>
          j.val + 1 ≤ k.val ∧ k.val < polled ∧ (fds k).revents ≠ 0) := by
      ext k
      simp only [Finset.mem_filter, Finset.mem_univ, true_and, Finset.mem_insert]
      constructor
      · rintro ⟨start, rest⟩
        rcases Nat.eq_or_lt_of_le start with same | later
        · exact Or.inl (Fin.ext same.symm)
        · exact Or.inr ⟨later, rest⟩
      · rintro (rfl | ⟨later, rest⟩)
        · exact ⟨le_refl _, inside, events⟩
        · exact ⟨by omega, rest⟩
    rw [pending, split, Finset.card_insert_of_notMem (by simp), if_pos events]
    rfl
  · have same : (Finset.univ.filter fun k : Fin (maxClients + 1) =>
        j.val ≤ k.val ∧ k.val < polled ∧ (fds k).revents ≠ 0)
        = Finset.univ.filter fun k : Fin (maxClients + 1) =>
          j.val + 1 ≤ k.val ∧ k.val < polled ∧ (fds k).revents ≠ 0 := by
      ext k
      simp only [Finset.mem_filter, Finset.mem_univ, true_and]
      constructor
      · rintro ⟨start, below, found⟩
        rcases Nat.eq_or_lt_of_le start with equal | later
        · exact absurd (Fin.ext equal ▸ found) events
        · exact ⟨later, below, found⟩
      · rintro ⟨later, rest⟩
        exact ⟨by omega, rest⟩
    rw [pending, same, if_neg events]
    rfl

/-- Where pending entries exist, the current one is among the polled entries. -/
theorem pending_pos {i polled : Nat} {fds : Fds} (some_left : 0 < pending i polled fds)
    : i < polled := by
  obtain ⟨j, member⟩ := Finset.card_pos.mp some_left
  simp only [Finset.mem_filter, Finset.mem_univ, true_and] at member
  omega

end LowlevelAcademy.Server
