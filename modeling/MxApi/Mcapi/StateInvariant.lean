/-
The invariant of state message exchange on an endpoint without a packet channel.

The sends are numbered in the order they start. Send `n` writes the entry
`stateSlot K n`, and as at most one send is in progress, what an entry holds is
decided by the latest send that was given it: nothing if there was none, that
send's message if it has returned `TRUE`, nothing if it has returned `FALSE`. A
reader that has read `update_counter` after `seen` starts and ends of sends
reads the entry of the send `seen/2 - 1`. Its locals say what they should as
long as no later send has been given that entry (`Undisturbed`), and whether
that is so is what the window test at the end of the receive decides.
-/
import MxApi.Lib.RingSlot
import MxApi.Lib.Section
import MxApi.Mcapi.FifoInvariant
import MxApi.Mcapi.StateExchange

set_option autoImplicit false

namespace MxApi

open Lib channel_type mcapi_buffer_state mcapi_status_t

/-! ## The entries of the sends -/

/-- The entry the `n`-th send writes. -/
def stateSlot (K n : ℕ) : ℕ := n % 2 ^ 31 % K

/-- The counter a send gets from its first increment gives its entry. -/
theorem writeSlot_u32 (K n : ℕ) : writeSlot K (u32 (2 * n + 1)) = stateSlot K n := by
  have h : u32 (2 * n + 1) / 2 = n % 2 ^ 31 := by
    unfold u32
    omega
  rw [writeSlot, h, stateSlot]

/-- No send after the `n`-th among the first `N` was given its entry. -/
def Latest (K N n : ℕ) : Prop := ∀ n', n < n' → n' < N → stateSlot K n' ≠ stateSlot K n

theorem Latest.mono {K N N' n : ℕ} (h : Latest K N' n) (hle : N ≤ N') : Latest K N n :=
  fun n' hn hN => h n' hn (Nat.lt_of_lt_of_le hN hle)

/-- The entry a reader took from the counter value `seen` is that of the send
`seen/2 - 1`, and no later one among the first `N` was given it. -/
structure Undisturbed (K seen N : ℕ) : Prop where
  two_le : 2 ≤ seen
  slot : readSlot K (u32 seen) = stateSlot K (seen / 2 - 1)
  latest : Latest K N (seen / 2 - 1)

theorem Undisturbed.mono {K seen N N' : ℕ} (h : Undisturbed K seen N') (hle : N ≤ N') :
    Undisturbed K seen N :=
  ⟨h.two_le, h.slot, h.latest.mono hle⟩

/-! ## What the window test shows

`N` sends have started and `now` of the sends' starts and ends have happened
when the test is made. -/

/-- What makes the test's answer meaningful: less than a whole turn of the
counter has passed since the reader read it, and the entries do not jump in
between, because `K` divides the number of positions, or because the counter
passed no multiple of `2^32`. -/
def InWindow (K seen now : ℕ) : Prop :=
  now < 2 * (seen / 2) + 2 ^ 32 ∧
    (K ∣ 2 ^ 31 ∨ 2 ≤ seen % 2 ^ 32 ∧ now / 2 ^ 32 = seen / 2 ^ 32)

theorem u32_div_two_mul_two (seen : ℕ) : u32 seen / 2 * 2 = u32 (2 * (seen / 2)) := by
  unfold u32
  omega

/-- The reader's entry is that of the send before the counter value it read,
unless the value was `0` or `1`. -/
theorem readSlot_u32 (K : ℕ) {seen : ℕ} (h : 2 ≤ seen % 2 ^ 32) :
    readSlot K (u32 seen) = stateSlot K (seen / 2 - 1) := by
  have hpos : subU32 (u32 seen / 2) 1 = (seen / 2 - 1) % 2 ^ 31 := by
    unfold subU32 u32
    omega
  rw [readSlot, hpos, stateSlot]

/-- On `0` and `1` the subtraction wraps, and the entry is the last of the ring
if its size divides the number of positions. -/
theorem readSlot_wrapped {K seen : ℕ} (hK : K ∣ 2 ^ 31) (h : seen % 2 ^ 32 < 2) :
    readSlot K (u32 seen) = K - 1 := by
  have hpos : subU32 (u32 seen / 2) 1 = 2 ^ 32 - 1 := by
    unfold subU32 u32
    omega
  rw [readSlot, hpos]
  exact slot_last (Dvd.dvd.mul_right hK 2) (by norm_num)

/-- **The window.** A receive that found something in its entry, and whose test
succeeds, has read the entry of the send before its counter value, and no later
send has been given that entry since. -/
theorem undisturbed_of_window {K seen now N : ℕ} (hK : 0 < K) (hseen : seen ≤ now)
    (hnow : now ≤ 2 * N) (hN : 2 * N ≤ now + 1)
    (hwritten : ∃ n < N, stateSlot K n = readSlot K (u32 seen))
    (htest : subU32 (u32 now) (u32 seen / 2 * 2) ≤ 2 * K - 2) (hwin : InWindow K seen now) :
    Undisturbed K seen N := by
  obtain ⟨hturn, hslots⟩ := hwin
  rw [u32_div_two_mul_two, subU32_u32 (by omega) hturn] at htest
  -- the sends after the one read are fewer than the entries
  have hfew : ∀ n < N, n < seen / 2 - 1 + K ∧ n < seen / 2 + K - 1 := by
    intro n hn
    omega
  have hlatest : 2 ≤ seen → Latest K N (seen / 2 - 1) := by
    intro htwo n hlt hn
    refine (slot_mod_ne ?_ hlt ?_).symm
    · rcases hslots with hdvd | ⟨hread, hepoch⟩
      · exact .inl hdvd
      · right
        omega
    · have := hfew n hn
      omega
  rcases Nat.lt_or_ge (seen % 2 ^ 32) 2 with hwrap | hread
  · have hdvd : K ∣ 2 ^ 31 := by
      rcases hslots with hdvd | ⟨hread, -⟩
      · exact hdvd
      · omega
    have hlast := readSlot_wrapped hdvd hwrap
    rcases Nat.lt_or_ge seen 2 with hzero | htwo
    · -- the last entry has not been written by so few sends
      obtain ⟨n, hn, hslot⟩ := hwritten
      rw [hlast, stateSlot, slot_mod_of_dvd hdvd, Nat.mod_eq_of_lt (by have := hfew n hn; omega)]
        at hslot
      have := hfew n hn
      omega
    · refine ⟨htwo, ?_, hlatest htwo⟩
      have hpos : (seen / 2 - 1) % 2 ^ 31 = 2 ^ 31 - 1 := by omega
      rw [hlast, stateSlot, hpos]
      exact (slot_last hdvd (by norm_num)).symm
  · exact ⟨by omega, readSlot_u32 K hread, hlatest (by omega)⟩

/-! ## What the memory holds -/

/-- The entry has buffer `i`. -/
def HasBuffer (d : buffer_descriptor) (i : ℕ) : Prop :=
  i < MCAPI_MAX_BUFFERS ∧ d.buff_index = validIndex i

/-- The buffer holds the message. -/
structure Written (ct : channel_type) (m : Msg) (b : buffer_entry) : Prop where
  size : b.size = m.buffer_size
  content : HasContent ct m b

/-- What a send of `m` that returned `result` leaves in entry `q`. -/
def Leaves (ct : channel_type) (m : Msg) (result : Bool) (sh : Shared) (q : ℕ) : Prop :=
  if result then ∃ i, HasBuffer (sh.q.elements q) i ∧ Written ct m (sh.buffers i)
  else (sh.q.elements q).buff_index = 0

/-- An entry has one buffer. -/
theorem HasBuffer.unique {d : buffer_descriptor} {i i' : ℕ} (h : HasBuffer d i)
    (h' : HasBuffer d i') : i = i' :=
  validIndex_inj h.1 h'.1 (h.2.symm.trans h'.2)

theorem HasBuffer.ne_zero {d : buffer_descriptor} {i : ℕ} (h : HasBuffer d i) :
    d.buff_index ≠ 0 := by
  rw [h.2]
  exact validIndex_ne_zero h.1

/-! ## The writer -/

/-- The program points of a send that has stepped the counter once. -/
def WritePc.inside : WritePc → Bool
  | .idle | .incCounter _ | .failed => false
  | _ => true

/-- One while a send is in progress. -/
def writing : Option WritePc → ℕ
  | some _ => 1
  | none => 0

theorem writing_le_one (w : Option WritePc) : writing w ≤ 1 := by
  cases w with
  | none => exact Nat.zero_le _
  | some p => exact Nat.le_refl _

/-- The message and the counter of the `n`-th send. -/
def IsSend (n : ℕ) (m m' : Msg) (counter : ℕ) : Prop := m' = m ∧ counter = u32 (2 * n + 1)

/-- What the locals of a writer are and what its entry holds during the `n`-th
send, that of `m`. -/
def WritePc.Ok (ct : channel_type) (K n : ℕ) (m : Msg) (sh : Shared) : WritePc → Prop
  | .readState m' c | .readBuffIndex m' c _ => IsSend n m m' c
  | .reserve m' c _ b => IsSend n m m' c ∧ b = (sh.q.elements (stateSlot K n)).buff_index
  | .allocBuffer m' c _ | .setFree m' c =>
    IsSend n m m' c ∧ EntryIs BUFFER_RESERVED 0 (sh.q.elements (stateSlot K n))
  | .clearBuffIndex m' c | .giveUp m' c =>
    IsSend n m m' c ∧ (sh.q.elements (stateSlot K n)).buff_index = 0
  | .setBuffIndex m' c i =>
    IsSend n m m' c ∧ EntryIs BUFFER_RESERVED 0 (sh.q.elements (stateSlot K n)) ∧
      i < MCAPI_MAX_BUFFERS ∧ (sh.buffers i).magic_num ≠ 0 ∧
      ∀ j, ¬ HasBuffer (sh.q.elements j) i
  | .setParent m' c i =>
    IsSend n m m' c ∧ i < MCAPI_MAX_BUFFERS ∧
      EntryIs BUFFER_RESERVED (validIndex i) (sh.q.elements (stateSlot K n))
  | .copy m' c i k =>
    (IsSend n m m' c ∧ i < MCAPI_MAX_BUFFERS ∧
      EntryIs BUFFER_RESERVED (validIndex i) (sh.q.elements (stateSlot K n))) ∧
      (ct ≠ MCAPI_SCL_CHAN → ∀ j < k, (sh.buffers i).buff j = m.buffer j)
  | .setSize m' c i =>
    (IsSend n m m' c ∧ i < MCAPI_MAX_BUFFERS ∧
      EntryIs BUFFER_RESERVED (validIndex i) (sh.q.elements (stateSlot K n))) ∧
      HasContent ct m (sh.buffers i)
  | .rereadState m' c i =>
    (IsSend n m m' c ∧ i < MCAPI_MAX_BUFFERS ∧
      EntryIs BUFFER_RESERVED (validIndex i) (sh.q.elements (stateSlot K n))) ∧
      Written ct m (sh.buffers i)
  | .casAllocated m' c i oldbstate =>
    (IsSend n m m' c ∧ i < MCAPI_MAX_BUFFERS ∧
      EntryIs BUFFER_RESERVED (validIndex i) (sh.q.elements (stateSlot K n))) ∧
      Written ct m (sh.buffers i) ∧ oldbstate = BUFFER_RESERVED
  | .casCounter m' c i =>
    (IsSend n m m' c ∧ i < MCAPI_MAX_BUFFERS ∧
      EntryIs BUFFER_ALLOCATED (validIndex i) (sh.q.elements (stateSlot K n))) ∧
      Written ct m (sh.buffers i)
  -- the marker of an old buffer is only exchanged on a packet channel
  | .casMarker .. | .idle | .incCounter _ | .failed => False

/-- The invariant of the shared memory and of the send in progress, `w`, when
`calls` have started and `results` have been returned. -/
structure StateCore (ct : channel_type) (K : ℕ) (w : Option WritePc) (sh : Shared)
    (calls : List Msg) (results : List Bool) : Prop where
  channel : sh.q.channel_type = ct
  length : calls.length = results.length + writing w
  uc : sh.q.update_counter = u32 (calls.length + results.length)
  index : ∀ j, (sh.q.elements j).buff_index ≠ 0 →
    ∃ i, HasBuffer (sh.q.elements j) i ∧ (sh.buffers i).magic_num ≠ 0
  exclusive : ∀ j j' i, HasBuffer (sh.q.elements j) i → HasBuffer (sh.q.elements j') i → j = j'
  given : ∀ j, (sh.q.elements j).buff_index ≠ 0 → ∃ n < calls.length, stateSlot K n = j
  ended : ∀ n m b, calls[n]? = some m → results[n]? = some b → Latest K calls.length n →
    Leaves ct m b sh (stateSlot K n)
  writer : ∀ p, w = some p →
    ∃ m, calls[results.length]? = some m ∧ p.Ok ct K results.length m sh

/-! ## The readers -/

/-- What a receive with room for `buffer_size` bytes delivers of a message. -/
def stateDelivery (ct : channel_type) (m : Msg) (index buffer_size : ℕ) : Delivery where
  received_size := m.buffer_size
  payload := match ct with
    | MCAPI_PKT_CHAN => .packet index
    | MCAPI_SCL_CHAN => .scalar m.scalar
    | MCAPI_NO_CHAN => .message ((List.range (min m.buffer_size buffer_size)).map m.buffer)

/-- A reader has read `counter` at the moment `g`. -/
structure Seen (calls : List Msg) (results : List Bool) (g : Moment) (counter : ℕ) : Prop where
  value : counter = u32 g.seen
  began : g.began ≤ g.seen / 2
  seen : g.seen ≤ calls.length + results.length

/-- It has found a buffer in its entry, and while the entry is undisturbed, that
is the buffer of a message it was sent, of which `P` holds. -/
structure Reading (K : ℕ) (calls : List Msg) (results : List Bool) (g : Moment) (counter : ℕ)
    (P : Msg → Prop) : Prop extends Seen calls results g counter where
  given : ∃ n < calls.length, stateSlot K n = readSlot K counter
  message : Undisturbed K g.seen calls.length →
    ∃ m, calls[g.seen / 2 - 1]? = some m ∧ results[g.seen / 2 - 1]? = some true ∧ P m

/-- What the locals of a reader are. -/
def ReadPc.Ok (ct : channel_type) (K : ℕ) (calls : List Msg) (results : List Bool)
    (el : ℕ → buffer_descriptor) : ReadPc → Prop
  | .idle => True
  | .readCounter _ g => g.began ≤ results.length
  | .readState _ g c | .readBuffIndex _ g c => Seen calls results g c
  | .recvBuffIndex _ g c => Reading K calls results g c fun _ => True
  | .setParent _ g c index | .readSize _ g c index =>
    Reading K calls results g c fun _ => HasBuffer (el (readSlot K c)) index
  | .copy f g c index size data =>
    Reading K calls results g c fun m => HasBuffer (el (readSlot K c)) index ∧
      size = m.buffer_size ∧ data = (List.range data.length).map m.buffer ∧
      data.length ≤ min size f.buffer_size
  | .confirm f g c index d =>
    Reading K calls results g c (fun m => d = stateDelivery ct m index f.buffer_size) ∧
      ∀ i, d.payload ≠ .packet i
  -- only packets are marked and freed
  | .casReceived .. | .freeMarker _ | .freeRead _ | .freeCas .. | .freeParent _ | .freeEntry ..
  | .failed => False

/-- A receive that returned `TRUE` delivered what one completed send wrote, and
that send is not older than the last one completed when it began. -/
def Delivered (ct : channel_type) (calls : List Msg) (results : List Bool) (r : Receipt) : Prop :=
  ∃ n m, calls[n]? = some m ∧ results[n]? = some true ∧
    r.delivery = stateDelivery ct m r.index r.args.buffer_size ∧ r.began ≤ n + 1

/-- The invariant of state message exchange. -/
structure StateInv {ω ρ : Type} (ct : channel_type) (K : ℕ) (s : StateSys ω ρ) : Prop where
  core : ∃ w, Active WritePc.inside s.wpc w ∧ StateCore ct K w s.sh s.calls s.results
  writers : ∀ x, s.wpc x ≠ .failed
  readers : ∀ y, (s.rpc y).Ok ct K s.calls s.results s.sh.q.elements
  held : s.held = []

end MxApi
