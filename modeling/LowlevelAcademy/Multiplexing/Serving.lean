import LowlevelAcademy.Multiplexing.Select

/-! What one iteration does: which descriptors it watches, whom it serves, and that it never
leaves the sets of descriptors.
-/

namespace LowlevelAcademy.Multiplexing

open LowlevelAcademy.Foundations
open LowlevelAcademy.Database

/-- A descriptor for which there is room in a set. -/
def InSet (fd : Int) : Prop := 0 ≤ fd ∧ fd < fdSetSize

/-- The descriptors that a set contains. -/
def FdSet.Contains (set : FdSet) (fd : Int) : Prop := set.isSet fd = some true

variable {set : FdSet} {fd other : Int}

/-- Nothing is in an empty set. -/
theorem FdSet.not_contains_zero : ¬ FdSet.zero.Contains fd := by
  simp only [FdSet.Contains, FdSet.isSet, FdSet.zero]
  split_ifs <;> simp

/-- With room in the set a descriptor can be added. -/
theorem FdSet.add_inSet (set : FdSet) (inside : InSet fd)
    : ∃ next,
        set.add fd = some next
        ∧ ∀ other, next.Contains other ↔ other = fd ∨ set.Contains other := by
  refine ⟨_, dif_pos inside, fun other => ?_⟩
  obtain ⟨low, high⟩ := inside
  simp only [FdSet.Contains, FdSet.isSet]
  by_cases bounds : 0 ≤ other ∧ other < fdSetSize
  · rw [dif_pos bounds, dif_pos bounds]
    by_cases same : other = fd
    · subst same
      simp
    · have differs : (⟨other.toNat, by omega⟩ : Fin fdSetSize) ≠ ⟨fd.toNat, by omega⟩ := by
        rw [Ne, Fin.mk.injEq]
        omega
      simp [Function.update_of_ne differs, same]
  · rw [dif_neg bounds, dif_neg bounds]
    have differs : other ≠ fd := by
      rintro rfl
      exact bounds ⟨low, high⟩
    simp [differs]

/-- Of a descriptor that it watches, `select` tells whether it is ready. -/
theorem FdSet.isSet_select {nfds : Int} (ready : Int → Bool) (contains : set.Contains fd)
    (below : fd < nfds)
    : (set.select nfds ready).isSet fd = some (ready fd) := by
  rw [FdSet.Contains, FdSet.isSet] at contains
  split_ifs at contains with inside
  have value : ((fd.toNat : Nat) : Int) = fd := Int.toNat_of_nonneg inside.1
  simp only [FdSet.isSet, dif_pos inside, FdSet.select, value, Option.some.inj contains, below,
    decide_true, Bool.true_and]

/-- Any other descriptor is not in the set that it leaves. -/
theorem FdSet.isSet_select_other {nfds : Int} (ready : Int → Bool) (inside : InSet fd)
    (outside : ¬ set.Contains fd)
    : (set.select nfds ready).isSet fd = some false := by
  obtain ⟨low, high⟩ := inside
  rw [FdSet.Contains, FdSet.isSet, dif_pos ⟨low, high⟩, Option.some.injEq, Bool.not_eq_true]
    at outside
  simp only [FdSet.isSet, dif_pos (And.intro low high), FdSet.select, outside, Bool.false_and]

variable {states : Clients} {env : Env} {slots : List Slot}

/-- The loop over the clients adds their descriptors, and raises `nfds` above each of them. -/
theorem watchClients_inSet (states : Clients) (slots : List Slot) (set : FdSet) (nfds : Int)
    (inside : ∀ slot ∈ slots, (states slot).fd ≠ -1 → InSet (states slot).fd)
    : ∃ watched bound,
        watchClients states slots set nfds = some (watched, bound)
        ∧ nfds ≤ bound
        ∧ (∀ slot ∈ slots, (states slot).fd ≠ -1 → (states slot).fd < bound)
        ∧ ∀ fd,
            watched.Contains fd
            ↔ set.Contains fd ∨ ∃ slot ∈ slots, (states slot).fd ≠ -1 ∧ (states slot).fd = fd := by
  induction slots generalizing set nfds with
  | nil => exact ⟨set, nfds, rfl, le_refl _, by simp, by simp⟩
  | cons slot rest ih =>
      have later := fun other member => inside other (List.mem_cons_of_mem slot member)
      by_cases connected : (states slot).fd ≠ -1
      · obtain ⟨next, added, contains⟩ :=
          FdSet.add_inSet set (inside slot (List.mem_cons_self ..) connected)
        obtain ⟨watched, bound, result, above, bounds, members⟩ := ih next
          (if (states slot).fd ≥ nfds then (states slot).fd + 1 else nfds) later
        refine ⟨watched, bound, ?_, ?_, ?_, fun fd => ?_⟩
        · simp only [watchClients, if_pos connected, added, result]
        · split_ifs at above <;> omega
        · rintro other member
          rcases List.mem_cons.mp member with rfl | member
          · intro _
            split_ifs at above <;> omega
          · exact bounds other member
        · rw [members fd, contains fd]
          constructor
          · rintro ((rfl | before) | ⟨other, member, found⟩)
            · exact Or.inr ⟨slot, List.mem_cons_self .., connected, rfl⟩
            · exact Or.inl before
            · exact Or.inr ⟨other, List.mem_cons_of_mem _ member, found⟩
          · rintro (before | ⟨other, member, used, rfl⟩)
            · exact Or.inl (Or.inr before)
            · rcases List.mem_cons.mp member with rfl | member
              · exact Or.inl (Or.inl rfl)
              · exact Or.inr ⟨other, member, used, rfl⟩
      · obtain ⟨watched, bound, result, above, bounds, members⟩ := ih set nfds later
        refine ⟨watched, bound, ?_, above, ?_, fun fd => ?_⟩
        · simp only [watchClients, if_neg connected, result]
        · rintro other member used
          rcases List.mem_cons.mp member with rfl | member
          · exact absurd used connected
          · exact bounds other member used
        · rw [members fd]
          refine or_congr_right ⟨fun ⟨other, member, found⟩ =>
            ⟨other, List.mem_cons_of_mem _ member, found⟩, ?_⟩
          rintro ⟨other, member, used, same⟩
          rcases List.mem_cons.mp member with rfl | member
          · exact absurd used connected
          · exact ⟨other, member, used, same⟩

/-- Which clients are served when the descriptors with a flag are found in the set. -/
def served (states : Clients) (flag : Slot → Bool) (slot : Slot) : Bool :=
  decide ((states slot).fd ≠ -1) && flag slot

/-- The descriptor in each slot of the table. -/
def Clients.fds (states : Clients) (slot : Slot) : Int := (states slot).fd

/-- The descriptors after a client was replaced. -/
theorem Clients.fds_update (states : Clients) (slot : Slot) (client : ClientState)
    : Clients.fds (Function.update states slot client)
      = Function.update states.fds slot client.fd :=
  funext fun other => Function.apply_update (fun _ => ClientState.fd) states slot client other

/-- A slot as it should be: its descriptor is low, it is connected exactly in
`STATE_CONNECTED`, and clean if it is free.
-/
structure ClientState.Valid (base : Finset Int) (client : ClientState) : Prop where
  low : client.fd ≠ -1 → 0 ≤ client.fd ∧ client.fd < base.card + maxClients
  active : client.fd ≠ -1 ↔ client.state = .connected
  cleared : client.fd = -1 → client.buffer = clearedBuffer

/-- The invariant: the slots are as they should be, and balance with what is open. -/
structure Tidy (base : Finset Int) (process : Clients × Finset Int) : Prop where
  balance : Balance (-1) base process.1.fds process.2
  clients : ∀ slot, (process.1 slot).Valid base

variable {base opened : Finset Int} {actions : List Action} {next : Clients}

theorem initClients_tidy (valid : -1 ∉ base) : Tidy base (initClients, base) where
  balance := balance_start valid
  clients := fun slot => ⟨by simp [initClients], by simp [initClients], by simp [initClients]⟩

/-- Replacing a client by a valid one that balances keeps the table tidy. -/
theorem Tidy.update {opened' : Finset Int} {slot : Slot} {client : ClientState}
    (tidy : Tidy base (states, opened)) (valid : client.Valid base)
    (balance : Balance (-1) base (Function.update states.fds slot client.fd) opened')
    : Tidy base (Function.update states slot client, opened') := by
  refine ⟨by rwa [Clients.fds_update], fun other => ?_⟩
  change ClientState.Valid base (Function.update states slot client other)
  by_cases same : other = slot
  · rwa [same, Function.update_self]
  · rw [Function.update_of_ne same]
    exact tidy.clients other

/-- Reading from a client keeps the table tidy, and uses only its own descriptor. -/
theorem Tidy.readClient (env : Env) (tidy : Tidy base (states, opened)) {slot : Slot}
    (connected : (states slot).fd ≠ -1)
    : ∃ opened',
        applyUses opened (readClient env (states slot) slot).2.uses = some opened'
        ∧ Tidy base
            (Function.update states slot (readClient env (states slot) slot).1, opened') := by
  have own : (states slot).fd ∈ opened := tidy.balance.mem_opened connected
  have valid := tidy.clients slot
  cases received : env.read (states slot).fd with
  | none =>
      refine ⟨opened.erase (states slot).fd, ?_, ?_⟩
      · simp [Multiplexing.readClient, received, applyUses, Action.uses, DescriptorUse.apply, own]
      · simp only [Multiplexing.readClient, received]
        exact tidy.update ⟨by simp, by simp, by simp⟩ (tidy.balance.disconnect connected)
  | some chunk =>
      refine ⟨opened, ?_, ?_⟩
      · simp [Multiplexing.readClient, received, applyUses, Action.uses, DescriptorUse.apply, own]
      · simp only [Multiplexing.readClient, received]
        refine tidy.update ⟨valid.low, valid.active, fun free => absurd free connected⟩ ?_
        rw [← Clients.fds, Function.update_eq_self]
        exact tidy.balance

/-- The loop over the clients keeps the table tidy. By induction on the slots. -/
theorem Tidy.serveClients {readFds : FdSet} (tidy : Tidy base (states, opened))
    (result : serveClients env readFds slots states = .ok (next, actions))
    : ∃ opened',
        applyUses opened (actions.flatMap Action.uses) = some opened'
        ∧ Tidy base (next, opened') := by
  induction slots generalizing states opened actions with
  | nil =>
      obtain ⟨rfl, rfl⟩ := Prod.mk.inj (Except.ok.inj result)
      exact ⟨opened, rfl, tidy⟩
  | cons slot rest ih =>
      simp only [Multiplexing.serveClients] at result
      split_ifs at result with connected
      · split at result
        · cases result
        · split at result
          · cases result
          · next later more tail =>
              obtain ⟨rfl, rfl⟩ := Prod.mk.inj (Except.ok.inj result)
              obtain ⟨between, uses, kept⟩ := tidy.readClient env connected
              obtain ⟨opened', others, last⟩ := ih kept tail
              refine ⟨opened', ?_, last⟩
              rw [List.flatMap_cons, applyUses_append uses, others]
        · exact ih tidy result
      · exact ih tidy result

/-- The number of clients is below `MAX_CLIENTS` while a slot is free. -/
theorem connected_lt {slot : Slot} (free : (states slot).fd = -1)
    : (Finset.univ.filter fun other => states.fds other ≠ -1).card < maxClients := by
  have missing : (Finset.univ.filter fun other => states.fds other ≠ -1) ⊂ Finset.univ := by
    refine Finset.filter_ssubset.mpr ⟨slot, Finset.mem_univ slot, ?_⟩
    simpa [Clients.fds] using free
  simpa using Finset.card_lt_card missing

/-- A free slot that was found is free. -/
theorem findFreeSlot_some {slot : Slot} (found : findFreeSlot states = some slot)
    : (states slot).fd = -1 := by
  simpa using List.find?_some found

/-- A new connection gets a low descriptor that no one has. -/
theorem accepted_low (accepts : KernelAccepts opened env) (succeeds : env.accept ≠ -1)
    : env.accept ∉ opened ∧ 0 ≤ env.accept ∧ env.accept ≤ opened.card := by
  have lowest := accepts.resolve_left succeeds
  exact ⟨lowest.1.2, lowest.1.1, lowest_free_le lowest⟩

/-- Accepting a connection keeps the table tidy. -/
theorem Tidy.acceptClient (tidy : Tidy base (states, opened)) (accepts : KernelAccepts opened env)
    (succeeds : env.accept ≠ -1)
    : ∃ opened',
        applyUses opened ((acceptClient env states).2.flatMap Action.uses) = some opened'
        ∧ Tidy base ((acceptClient env states).1, opened') := by
  obtain ⟨unused, positive, few⟩ := accepted_low accepts succeeds
  cases found : findFreeSlot states with
  | none =>
      refine ⟨opened, ?_, ?_⟩
      · simp [Multiplexing.acceptClient, found, applyUses, Action.uses, DescriptorUse.apply, unused]
      · simp only [Multiplexing.acceptClient, found]
        exact tidy
  | some slot =>
      have free := findFreeSlot_some found
      have count := tidy.balance.card
      have room := connected_lt free
      refine ⟨insert env.accept opened, ?_, ?_⟩
      · simp [Multiplexing.acceptClient, found, applyUses, Action.uses, DescriptorUse.apply, unused]
      · simp only [Multiplexing.acceptClient, found]
        refine tidy.update ⟨fun _ => ⟨positive, ?_⟩, by simpa using succeeds,
          fun none => absurd none succeeds⟩ (tidy.balance.connect free succeeds unused)
        change env.accept < _
        simp only at count
        omega

-----------------------------------------------------------------------------------------
-- One iteration
-----------------------------------------------------------------------------------------

/-- What the server process has open at first: the listening socket, and nothing that leaves too
little room in a set.
-/
structure Roomy (base : Finset Int) (listenFd : Int) : Prop where
  valid : -1 ∉ base
  listens : listenFd ∈ base
  inside : InSet listenFd
  room : base.card + maxClients ≤ fdSetSize

variable {listenFd : Int} {ready : Int → Bool}

theorem Tidy.inSet (tidy : Tidy base (states, opened)) (roomy : Roomy base listenFd) {slot : Slot}
    (connected : (states slot).fd ≠ -1)
    : InSet (states slot).fd := by
  obtain ⟨low, high⟩ := (tidy.clients slot).low connected
  exact ⟨low, high.trans_le (by exact_mod_cast roomy.room)⟩

/-- What the iteration has in its set behind `select`: it can test the listening socket and all
connected clients, and finds them as they are; any other descriptor with room is not there.
-/
structure Watches (listenFd : Int) (states : Clients) (ready : Int → Bool) (readFds : FdSet)
    : Prop where
  listens : readFds.isSet listenFd = some (ready listenFd)
  clients
    : ∀ slot,
        (states slot).fd ≠ -1 → readFds.isSet (states slot).fd = some (ready (states slot).fd)
  others
    : ∀ fd,
        InSet fd
        → fd ≠ listenFd
        → (∀ slot, (states slot).fd ≠ fd)
        → readFds.isSet fd = some false

/-- The sets are built so in every tidy state. -/
theorem Tidy.watches (tidy : Tidy base (states, opened)) (roomy : Roomy base listenFd)
    (ready : Int → Bool)
    : ∃ set watched nfds,
        FdSet.zero.add listenFd = some set
        ∧ watchClients states (List.finRange maxClients) set (listenFd + 1)
          = some (watched, nfds)
        ∧ Watches listenFd states ready (watched.select nfds ready) := by
  obtain ⟨set, added, first⟩ := FdSet.add_inSet FdSet.zero roomy.inside
  obtain ⟨watched, nfds, result, above, bounds, members⟩ :=
    watchClients_inSet states (List.finRange maxClients) set (listenFd + 1)
      fun slot _ connected => tidy.inSet roomy connected
  refine ⟨set, watched, nfds, added, result, ?_, fun slot connected => ?_, ?_⟩
  · refine FdSet.isSet_select ready ?_ (by omega)
    exact (members listenFd).mpr (Or.inl ((first listenFd).mpr (Or.inl rfl)))
  · refine FdSet.isSet_select ready ?_ (bounds slot (List.mem_finRange slot) connected)
    exact (members _).mpr (Or.inr ⟨slot, List.mem_finRange slot, connected, rfl⟩)
  · intro fd inside differs unused
    refine FdSet.isSet_select_other ready inside fun contains => ?_
    rcases (members fd).mp contains with before | ⟨slot, -, -, same⟩
    · rcases (first fd).mp before with same | zero
      · exact differs same
      · exact FdSet.not_contains_zero zero
    · exact unused slot same

/-- The descriptor of a new client has room in the set behind `select`, and is not in it. -/
theorem Tidy.arrival {slot : Slot} {readFds : FdSet} (tidy : Tidy base (states, opened))
    (roomy : Roomy base listenFd) (watches : Watches listenFd states ready readFds)
    (accepts : KernelAccepts opened env) (succeeds : env.accept ≠ -1)
    (free : (states slot).fd = -1)
    : readFds.isSet env.accept = some false := by
  obtain ⟨unused, low, few⟩ := accepted_low accepts succeeds
  have count := tidy.balance.card
  have room := connected_lt free
  have limit := roomy.room
  refine watches.others env.accept ⟨low, ?_⟩ ?_ fun other same => ?_
  · simp only at count
    have bound : opened.card < fdSetSize := by omega
    exact few.trans_lt (by exact_mod_cast bound)
  · rintro same
    refine unused ?_
    change env.accept ∈ (states, opened).2
    rw [tidy.balance.opened, same]
    exact Finset.mem_union_left _ roomy.listens
  · have connected : (states other).fd ≠ -1 := by rwa [same]
    exact unused (same ▸ tidy.balance.mem_opened connected)

end LowlevelAcademy.Multiplexing
