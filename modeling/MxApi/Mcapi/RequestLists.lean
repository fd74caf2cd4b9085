/-
The requests of the lock-based transport and the two lists that manage them
(`Fragments/transport_sm_request.c`, `Fragments/transport_sm_wait.c`).

`request_reserves_header` threads the request indexes through one array of
links: the available ones from `empty_head_index`, the reserved ones from
`full_head_index`. Every function here runs under `global_rwl`, so a call is one
step.

The links are a function on all of `ℤ`: at the indexes `0 .. MCAPI_MAX_REQUESTS -
1` it is `array`, elsewhere it is the memory around it, which a list step may
reach as well. `touched` records the indexes at which the list steps read or
write `array`. What an attempt to complete a pending request finds is decided by
the queues and endpoints; it is the parameter `found`. `none` says that an assert
fails.
-/
import Mathlib.Tactic.Common
import MxApi.Lib.Links
import MxApi.Mcapi.Requests

set_option autoImplicit false

namespace MxApi.Baseline

open CallStatus mcapi_request_type

/-! ## The tables -/

structure indexed_array_node where
  next_index : ℤ
  prev_index : ℤ
  deriving DecidableEq, Repr

structure indexed_array_header where
  array : ℤ → indexed_array_node
  curr_count : ℤ
  max_count : ℤ
  empty_head_index : ℤ
  full_head_index : ℤ
  touched : List ℤ

structure mcapi_request_data where
  valid : Bool
  size : ℕ
  type : mcapi_request_type
  completed : Bool
  cancelled : Bool
  handle : ℕ
  status : CallStatus
  deriving DecidableEq, Repr

/-- A request all of whose bytes are zero. -/
def mcapi_request_data.zero : mcapi_request_data :=
  ⟨false, 0, OTHER, false, false, 0, MCAPI_SUCCESS⟩

structure mcapi_database where
  request_reserves_header : indexed_array_header
  requests : ℤ → mcapi_request_data

namespace indexed_array_header

variable (header : indexed_array_header)

def next (i : ℤ) : ℤ := (header.array i).next_index

def prev (i : ℤ) : ℤ := (header.array i).prev_index

def touch (i : ℤ) : indexed_array_header := { header with touched := i :: header.touched }

/-- `header->array[i].next_index = v` -/
def set_next (i v : ℤ) : indexed_array_header :=
  { header.touch i with
    array := Function.update header.array i { header.array i with next_index := v } }

/-- `header->array[i].prev_index = v` -/
def set_prev (i v : ℤ) : indexed_array_header :=
  { header.touch i with
    array := Function.update header.array i { header.array i with prev_index := v } }

@[simp] theorem next_set_next (i v : ℤ) :
    (header.set_next i v).next = Function.update header.next i v := by
  funext j
  by_cases hj : j = i
  · rw [hj, Function.update_self]
    simp [next, set_next]
  · rw [Function.update_of_ne hj]
    simp [next, set_next, hj]

@[simp] theorem prev_set_next (i v : ℤ) : (header.set_next i v).prev = header.prev := by
  funext j
  by_cases hj : j = i
  · simp [prev, set_next, hj]
  · simp [prev, set_next, hj]

@[simp] theorem prev_set_prev (i v : ℤ) :
    (header.set_prev i v).prev = Function.update header.prev i v := by
  funext j
  by_cases hj : j = i
  · rw [hj, Function.update_self]
    simp [prev, set_prev]
  · rw [Function.update_of_ne hj]
    simp [prev, set_prev, hj]

@[simp] theorem next_set_prev (i v : ℤ) : (header.set_prev i v).next = header.next := by
  funext j
  by_cases hj : j = i
  · simp [next, set_prev, hj]
  · simp [next, set_prev, hj]

end indexed_array_header

/-! ## The list functions -/

/-- The body of the loop of `mcapi_trans_init_indexed_array_have_lock`, for the
indexes below `n`. -/
def initNodes : ℕ → indexed_array_header → indexed_array_header
  | 0, header => header
  | n + 1, header => ((initNodes n header).set_next n (n + 1)).set_prev n (n - 1)

def mcapi_trans_init_indexed_array_have_lock (header : indexed_array_header) :
    indexed_array_header :=
  let header := { header with
    curr_count := 0
    max_count := MCAPI_MAX_REQUESTS
    empty_head_index := 0
    full_head_index := -1 }
  let header := initNodes MCAPI_MAX_REQUESTS header
  let header := header.set_next (MCAPI_MAX_REQUESTS - 1) (-1)
  header.set_prev 0 (-1)

/-- `array[temp].prev_index = head`, if there is a cell `temp`. -/
def backLink (header : indexed_array_header) (temp head : ℤ) : indexed_array_header :=
  if temp ≠ -1 then header.set_prev temp head else header

/-- The list steps of `mcapi_trans_reserve_request_have_lock`. -/
def reserveLinks (header : indexed_array_header) : indexed_array_header :=
  let temp_full_head_index := header.full_head_index
  let header := { header with full_head_index := header.empty_head_index }
  let next_index := header.next header.empty_head_index
  let header := header.touch header.empty_head_index
  let header := { header with empty_head_index := next_index }
  let header := header.set_prev header.empty_head_index (-1)
  let header := header.set_next header.full_head_index temp_full_head_index
  let header := header.set_prev header.full_head_index (-1)
  let header := backLink header temp_full_head_index header.full_head_index
  { header with curr_count := header.curr_count + 1 }

/-- The index that was reserved, if one was available. -/
def mcapi_trans_reserve_request_have_lock (db : mcapi_database) :
    Option ℤ × mcapi_database :=
  let header := db.request_reserves_header
  if header.empty_head_index ≠ -1 then
    let r := header.empty_head_index
    let requests := Function.update db.requests r { db.requests r with valid := true }
    (some r, ⟨reserveLinks header, requests⟩)
  else (none, db)

/-- If `r` is head of the full list, its next link becomes the new head. -/
def newFullHead (header : indexed_array_header) (r : ℤ) : indexed_array_header :=
  if header.full_head_index = r then
    { header.touch header.full_head_index with
      full_head_index := header.next header.full_head_index }
  else header

/-- `array[array[r].next_index].prev_index = array[r].prev_index`, if there is a
next cell. -/
def linkNext (header : indexed_array_header) (r : ℤ) : indexed_array_header :=
  let header := header.touch r
  if header.next r ≠ -1 then header.set_prev (header.next r) (header.prev r) else header

/-- `array[array[r].prev_index].next_index = array[r].next_index`, if there is a
cell before. -/
def linkPrev (header : indexed_array_header) (r : ℤ) : indexed_array_header :=
  let header := header.touch r
  if header.prev r ≠ -1 then header.set_next (header.prev r) (header.next r) else header

/-- Link `r` as new head of the available list. -/
def linkEmpty (header : indexed_array_header) (r : ℤ) : indexed_array_header :=
  let temp_empty_head_index := header.empty_head_index
  let header := { header with empty_head_index := r }
  let header := header.set_next header.empty_head_index temp_empty_head_index
  let header := header.set_prev header.empty_head_index (-1)
  backLink header temp_empty_head_index header.empty_head_index

def mcapi_trans_remove_request_have_lock (header : indexed_array_header) (r : ℤ) :
    Bool × indexed_array_header :=
  if header.full_head_index ≠ -1 then
    let header := newFullHead header r
    -- unlink r from full list, linking its neighbors together
    let header := linkPrev (linkNext header r) r
    let header := linkEmpty header r
    (true, { header with curr_count := header.curr_count - 1 })
  else (false, header)

/-! ## The calls -/

/-- What `setup_request_have_lock` stores in request `r`. A receive that has to
wait and finds no queue entry to reserve is completed with
`MCAPI_ERR_MEM_LIMIT`; `slot` says whether it finds one. -/
def setup_request_have_lock (db : mcapi_database) (handle : ℕ) (mcapi_status : CallStatus)
    (completed : Bool) (size : ℕ) (type : mcapi_request_type) (slot : Bool) (r : ℤ) :
    mcapi_database :=
  let data := { db.requests r with
    status := mcapi_status
    size := size
    cancelled := false
    completed := completed
    type := type
    handle := handle }
  let data :=
    if type = RECV ∧ completed = false ∧ slot = false then
      { data with status := MCAPI_ERR_MEM_LIMIT, completed := true }
    else data
  { db with requests := Function.update db.requests r data }

/-- What every non-blocking operation does with the table: reserve a request and
set it up. -/
def start (db : mcapi_database) (handle : ℕ) (mcapi_status : CallStatus) (completed : Bool)
    (size : ℕ) (type : mcapi_request_type) (slot : Bool) : mcapi_database :=
  match mcapi_trans_reserve_request_have_lock db with
  | (some r, db) => setup_request_have_lock db handle mcapi_status completed size type slot r
  | (none, db) => db

/-- The attempt to complete a pending request: `found` is the size and the status
it is completed with. -/
def check_request_have_lock (data : mcapi_request_data) (found : Option (ℕ × CallStatus)) :
    Option mcapi_request_data :=
  match data.type, found with
  -- always completes immediately
  | SEND, _ | CONN_PKTCHAN, _ | CONN_SCLCHAN, _ => some data
  | OTHER, _ => none
  | _, none => some data
  | RECV, some (size, status) =>
    some { data with completed := true, size := size, status := status }
  | GET_ENDPT, some _ => some { data with completed := true, status := MCAPI_SUCCESS }
  -- `check_open_channel_request_have_lock`, `check_close_channel_request_have_lock`
  | _, some _ => some { data with completed := true }

/-- What a test reports: the result, `*size`, `*mcapi_status` and whether
`*request` is set to zero. `none` leaves the caller's variable as it is. -/
structure TestAnswer where
  rc : Bool
  size : Option ℕ
  status : Option CallStatus
  cleared : Bool
  deriving DecidableEq, Repr

/-- The end of `mcapi_trans_test_i`: a completed request is removed from the
list and cleared. -/
def finish_request (db : mcapi_database) (r : ℤ) : mcapi_database × TestAnswer :=
  if (db.requests r).completed then
    let header := (mcapi_trans_remove_request_have_lock db.request_reserves_header r).2
    let data := db.requests r
    (⟨header, Function.update db.requests r mcapi_request_data.zero⟩,
      ⟨true, some data.size, some data.status, true⟩)
  else (db, ⟨false, none, none, false⟩)

def mcapi_trans_test_i (db : mcapi_database) (request : ℕ)
    (found : Option (ℕ × CallStatus)) : Option (mcapi_database × TestAnswer) :=
  match mcapi_trans_decode_request_handle request with
  | none => some (db, ⟨true, none, some MCAPI_ERR_REQUEST_INVALID, false⟩)
  | some r =>
    if (db.requests r).valid = false then
      some (db, ⟨true, none, some MCAPI_ERR_REQUEST_INVALID, false⟩)
    else if (db.requests r).cancelled then
      some (db, ⟨true, none, some MCAPI_ERR_REQUEST_CANCELLED, false⟩)
    else if (db.requests r).completed then some (finish_request db r)
    else
      match check_request_have_lock (db.requests r) found with
      | none => none
      | some data =>
        some (finish_request { db with requests := Function.update db.requests r data } r)

/-- The status, where one is reported. -/
def mcapi_trans_cancel (db : mcapi_database) (request : ℕ) :
    Option (mcapi_database × Option CallStatus) :=
  match mcapi_trans_decode_request_handle request with
  | none => none
  | some r =>
    if (db.requests r).valid = false then some (db, some MCAPI_ERR_REQUEST_INVALID)
    else if (db.requests r).cancelled then some (db, some MCAPI_ERR_REQUEST_CANCELLED)
    else if (db.requests r).completed = false then
      match (db.requests r).type with
      | RECV | GET_ENDPT =>
        -- clear the request so that it can be re-used
        some (⟨db.request_reserves_header,
          Function.update db.requests r mcapi_request_data.zero⟩, some MCAPI_SUCCESS)
      -- mcapi_assert(0)
      | _ => none
    -- it's too late, the request has already completed
    else some (db, none)

/-! ## Runs -/

/-- One call. -/
inductive RequestCall
  | start (handle : ℕ) (mcapi_status : CallStatus) (completed : Bool) (size : ℕ)
      (type : mcapi_request_type) (slot : Bool)
  | test_i (request : ℕ) (found : Option (ℕ × CallStatus))
  | cancel (request : ℕ)

def requestStep (db : mcapi_database) : RequestCall → Option mcapi_database
  | .start handle mcapi_status completed size type slot =>
    some (start db handle mcapi_status completed size type slot)
  | .test_i request found => (mcapi_trans_test_i db request found).map Prod.fst
  | .cancel request => (mcapi_trans_cancel db request).map Prod.fst

/-- The table after its initialisation, in memory with any content: no request is
valid. -/
def initialRequests (header : indexed_array_header) : mcapi_database :=
  ⟨mcapi_trans_init_indexed_array_have_lock { header with touched := [] },
    fun _ => mcapi_request_data.zero⟩

/-- The table after `n` more reserves. -/
def reserves : ℕ → mcapi_database → mcapi_database
  | 0, db => db
  | n + 1, db => reserves n (mcapi_trans_reserve_request_have_lock db).2

end MxApi.Baseline
