/-
Collecting a topology (`mcapi_trans_collect` of `Fragments/transport_sm_config_abb.c`), and
the links that it binds.

The topology is the list of the nodes below its element in document order; its children are
those of depth 1, and a search from a node goes on behind it to the end of the list, as
`mxmlFindElement` does. A name is a list of characters. The user data of the nodes is what
an earlier collect may have left. A failed assertion is `none`, and so is memory outside the
configuration that is read. In the last loop the databases of the registered domains and
nodes are those at the `k`-th look for an endpoint, and so is whether the time is over.

A link is bound if both its channels are valid. But collecting clears the flag of every
channel, and it is set when the topology is connected: no link is ever bound, and the
configuration is right about its links exactly if the topology has no link between collected
channels ([`links_right_iff`]). What is collected is what `mcapi_trans_connect` starts from
([`collect_fresh`]).
-/
import MxApi.Mcapi.TopologyRun

set_option autoImplicit false

namespace MxApi.Topology

open Lib Attributes channel_type CallStatus mcapi_buffer_type mcapi_direction_t
  mcapi_chan_state_t

/-! ## The document -/

/-- A node: how deep it is below the topology, its element unless it is text, and the
attributes. -/
structure mxml_node_t where
  depth : ℕ
  element : Option (List Char)
  attrs : List (List Char × List Char)
  deriving DecidableEq, Repr

def mxmlElementGetAttr (x : mxml_node_t) (name : List Char) : Option (List Char) :=
  if x.element.isSome then (x.attrs.find? fun a => a.1 == name).map Prod.snd else none

/-- `mxmlFindElement` with `MXML_DESCEND`, from position `start` of the topology; `attr` is an
attribute the element has to have and its value, if that matters. -/
def mxmlFindElement (top : List mxml_node_t) (start : ℕ) (element : List Char)
    (attr : Option (List Char × Option (List Char))) : Option ℕ :=
  search top.length fun j =>
    decide (start ≤ j) && match top[j]? with
      | none => false
      | some x => decide (x.element = some element) && match attr with
        | none => true
        | some (name, value) =>
          match mxmlElementGetAttr x name with
          | none => false
          | some v => decide (value = none ∨ value = some v)

def sEndpoint : List Char := ['e', 'n', 'd', 'p', 'o', 'i', 'n', 't']
def sChannel : List Char := ['c', 'h', 'a', 'n', 'n', 'e', 'l']
def sLink : List Char := ['l', 'i', 'n', 'k']
def sFrom : List Char := ['f', 'r', 'o', 'm']
def sTo : List Char := ['t', 'o']
def sSend : List Char := ['s', 'e', 'n', 'd']
def sAck : List Char := ['a', 'c', 'k']
def sName : List Char := ['n', 'a', 'm', 'e']
def sDomain : List Char := ['d', 'o', 'm', 'a', 'i', 'n']
def sNode : List Char := ['n', 'o', 'd', 'e']
def sPort : List Char := ['p', 'o', 'r', 't']
def sType : List Char := ['t', 'y', 'p', 'e']
def sBuffer : List Char := ['b', 'u', 'f', 'f', 'e', 'r']
def sLength : List Char := ['l', 'e', 'n', 'g', 't', 'h']
def sFullduplex : List Char := ['f', 'u', 'l', 'l', 'd', 'u', 'p', 'l', 'e', 'x']

/-! ## Cleared memory -/

def mcapi_endpoint_cfg_t.zero : mcapi_endpoint_cfg_t :=
  { valid := false, endpoint := 0, name := [], initialized := false, index := 0, tuple := 0 }

def mcapi_chan_cfg_t.zero : mcapi_chan_cfg_t :=
  { valid := false, state := MCAPI_INVALID_STATE, request := none, handle := 0, name := []
    type := MCAPI_NO_CHAN, buffer_type := MCAPI_ENDP_ATTR_FIFO_BUFFER, buffer_length := 0
    index := 0, parent := none, direction := MCAPI_SEND_DIRECTION, from_ep := 0, to_ep := 0 }

def mcapi_config_t.zero : mcapi_config_t :=
  ⟨0, 0, fun _ => ⟨false, 0, ⟨0, 0, 0⟩⟩, fun _ => .zero, fun _ => .zero, fun _ => ⟨[], 0, 0, 0⟩⟩

def MAX_CFG_NAME_LEN : ℕ := 120

/-- A number of an attribute as the `uint16_t` of a tuple. -/
def tupleNumber (s : List Char) : ℕ := (atoi s % 2 ^ 16).toNat

/-! ## The loops of the call -/

/-- The configuration, the user data of the nodes, the number of links, the result and
`*mcapi_status`. -/
structure Collect where
  config : mcapi_config_t
  user : ℕ → ℕ
  nl : ℕ
  rc : Bool
  status : CallStatus

namespace Collect

variable (s : Collect)

/-- An `ERROR` is reported and the node is left out. -/
def error : Collect := { s with rc := false }

def setUser (i v : ℕ) : Collect := { s with user := Function.update s.user i v }

end Collect

section

variable (domain_id node_id : ℕ) (top : List mxml_node_t)

/-- The body of a loop over the children of the topology with this element. -/
def forChild (element : List Char) (body : ℕ → mxml_node_t → Collect → Option Collect) (i : ℕ)
    (s : Collect) : Option Collect :=
  match top[i]? with
  | none => some s
  | some x => if x.depth = 1 ∧ x.element = some element then body i x s else some s

def collectEndpoint (i : ℕ) (x : mxml_node_t) (s : Collect) : Option Collect :=
  match mxmlElementGetAttr x sName with
  | none => some s.error
  | some s_name =>
    if MCAPI_MAX_ENDPOINTS ≤ s.config.nep then some s.error
    else
      match mxmlElementGetAttr x sDomain, mxmlElementGetAttr x sNode, mxmlElementGetAttr x sPort with
      | some s_d, some s_n, some s_p =>
        let k := s.config.nep
        let ep : mcapi_endpoint_cfg_t := { mcapi_endpoint_cfg_t.zero with
          endpoint := 2 ^ 32 - 1
          index := k + 1
          tuple := k
          name := s_name.take MAX_CFG_NAME_LEN }
        let t : mcapi_endpoint_tuple_t := { s.config.tuple k with
          parent := k
          data := ⟨tupleNumber s_d, tupleNumber s_n, tupleNumber s_p⟩ }
        some ({ s with config := { s.config with
          nep := k + 1
          endpoint := Function.update s.config.endpoint k ep
          tuple := Function.update s.config.tuple k t } }.setUser i (k + 1))
      | _, _, _ => some s.error

/-- The endpoint that a reference of a channel names, by its index. -/
def referenced (s : Collect) (i : ℕ) (ref : List Char) : Option ℕ := do
  let j ← mxmlFindElement top (i + 1) ref none
  let x ← top[j]?
  let node ← mxmlFindElement top 0 sEndpoint (some (sName, mxmlElementGetAttr x sEndpoint))
  if 0 < s.user node then some (s.user node - 1) else none

/-- An endpoint with the tuple of endpoint `k` is in use. -/
def tupleUsed (config : mcapi_config_t) (k : ℕ) : Bool :=
  (List.range config.nep).any fun i =>
    decide ((config.tuple i).data = config.data k) && (config.tuple i).used

def setInitialized (config : mcapi_config_t) (k : ℕ) : mcapi_config_t :=
  { config with
    endpoint := Function.update config.endpoint k { config.endpoint k with initialized := true } }

def setUsed (config : mcapi_config_t) (k : ℕ) : mcapi_config_t :=
  { config with
    tuple := Function.update config.tuple (config.endpoint k).tuple
      { config.tuple (config.endpoint k).tuple with used := true } }

/-- The local endpoint of a channel is taken, and the other one is noted. -/
def claimEndpoints (s : Collect) (localEp remoteEp : ℕ) : Collect :=
  if tupleUsed s.config localEp then s.error
  else
    let s := { s with config := setInitialized (setUsed s.config localEp) localEp }
    if tupleUsed s.config remoteEp then s.error
    else { s with config := setInitialized s.config remoteEp }

/-- The type of a channel. -/
def channelType (s_t : List Char) : Option channel_type :=
  if sameName s_t ['m', 's', 'g'] then some MCAPI_NO_CHAN
  else if sameName s_t ['p', 'k', 't'] then some MCAPI_PKT_CHAN
  else if sameName s_t ['s', 'c', 'l'] then some MCAPI_SCL_CHAN
  else none

def collectChannel (i : ℕ) (x : mxml_node_t) (s : Collect) : Option Collect :=
  match mxmlElementGetAttr x sName with
  | none => some s.error
  | some s_name =>
    if MCAPI_MAX_ENDPOINTS ≤ s.config.nchans then some s.error
    else
      match mxmlElementGetAttr x sType with
      | none => some s.error
      | some s_t => do
        let from_ep ← referenced top s i sFrom
        let to_ep ← referenced top s i sTo
        match channelType s_t,
            collectBuffer (mxmlElementGetAttr x sBuffer) (mxmlElementGetAttr x sLength) with
        | some ct, some (bt, bl) =>
          let n := s.config.nchans
          let fed := s.config.data from_ep
          let ted := s.config.data to_ep
          let direction := if domain_id = fed.domain ∧ node_id = fed.node then some MCAPI_SEND_DIRECTION
            else if domain_id = ted.domain ∧ node_id = ted.node then some MCAPI_RECV_DIRECTION
            else none
          -- the direction of a channel of other nodes stays that of cleared memory
          let c : mcapi_chan_cfg_t := { mcapi_chan_cfg_t.zero with
            type := ct
            buffer_type := bt
            buffer_length := bl
            index := n + 1
            direction := direction.getD MCAPI_SEND_DIRECTION
            from_ep := from_ep
            to_ep := to_ep
            name := s_name.take MAX_CFG_NAME_LEN }
          if from_ep < s.config.nep ∧ to_ep < s.config.nep then
            let s := { s with config := { s.config with
              nchans := n + 1
              chan := Function.update s.config.chan n c } }.setUser i (n + 1)
            some (match direction with
              | some MCAPI_SEND_DIRECTION => claimEndpoints s from_ep to_ep
              | some MCAPI_RECV_DIRECTION => claimEndpoints s to_ep from_ep
              | none => s)
          else none
        | _, _ => some s.error

/-- The channel that a reference of a link names, by its node. -/
def channelOf (i : ℕ) (ref : List Char) : Option ℕ := do
  let j ← mxmlFindElement top (i + 1) ref none
  let x ← top[j]?
  mxmlFindElement top 0 sChannel (some (sName, mxmlElementGetAttr x sChannel))

def setParent (config : mcapi_config_t) (k l : ℕ) : mcapi_config_t :=
  { config with chan := Function.update config.chan k { config.chan k with parent := some l } }

def collectLink (i : ℕ) (x : mxml_node_t) (s : Collect) : Option Collect :=
  match mxmlElementGetAttr x sName with
  | none => some s.error
  | some s_name =>
    if MCAPI_MAX_ENDPOINTS ≤ s.nl then some s.error
    else
      match mxmlElementGetAttr x sType with
      | none => some s.error
      | some s_t =>
        let s := s.setUser i 0
        if s_t = sFullduplex then do
          let send_node ← channelOf top i sSend
          let ack_node ← channelOf top i sAck
          let sci := s.user send_node
          let aci := s.user ack_node
          if 0 < sci ∧ 0 < aci then
            if sci ≤ MCAPI_MAX_ENDPOINTS ∧ aci ≤ MCAPI_MAX_ENDPOINTS then
              if (s.config.chan (sci - 1)).valid && (s.config.chan (aci - 1)).valid then
                if (s.config.chan (aci - 1)).type = (s.config.chan (sci - 1)).type then
                  let l := s.nl
                  let link : mcapi_link_cfg_t :=
                    ⟨s_name.take MAX_CFG_NAME_LEN, l + 1, sci - 1, aci - 1⟩
                  let config := setParent (setParent s.config (sci - 1) l) (aci - 1) l
                  some ({ s with
                    config := { config with link := Function.update config.link l link }
                    nl := l + 1 }.setUser i (l + 1))
                else none
              else some s
            else none
          else some s
        else some s.error

/-- Whether domain and node of endpoint `i` are found before the time is over. -/
def locate (registered : ℕ → ℕ → mcapi_database) (late : ℕ → ℕ → Bool)
    (data : mcapi_endpoint_data_t) (i : ℕ) : ℕ → ℕ → Option Bool
  | 0, _ => none
  | fuel + 1, k =>
    let db := registered i k
    let found := (search MCA_MAX_DOMAINS fun j =>
        (db.domains j).state.allocated && (db.domains j).state.domain_id == data.domain).bind fun d =>
      search MCA_MAX_NODES fun j =>
        (db.node d j).state.allocated && (db.node d j).state.node_num == data.node
    if found.isSome then some true
    else if late i k then some false
    else locate registered late data i fuel (k + 1)

/-- An endpoint that is used is looked for, unless the time is over. -/
def markEndpoint (registered : ℕ → ℕ → mcapi_database) (late : ℕ → ℕ → Bool) (fuel i : ℕ)
    (s : Collect) : Option Collect :=
  if s.status = MCAPI_TIMEOUT || !(s.config.endpoint i).initialized then some s
  else (locate registered late (s.config.data i) i fuel 0).map fun found =>
    if found then s else { s with rc := false, status := MCAPI_TIMEOUT }

def mcapi_trans_collect (registered : ℕ → ℕ → mcapi_database) (late : ℕ → ℕ → Bool) (fuel : ℕ)
    (user : ℕ → ℕ) : Option Collect := do
  let s : Collect := ⟨.zero, user, 0, true, MCAPI_SUCCESS⟩
  let s ← forLoop (forChild top sEndpoint collectEndpoint) top.length s
  let s ← forLoop (forChild top sChannel (collectChannel domain_id node_id top)) top.length s
  let s ← forLoop (forChild top sLink (collectLink top)) top.length s
  forLoop (markEndpoint registered late fuel) s.config.nep s

end

/-! ## What is expected -/

/-- Node `i` is a child of the topology with this element. -/
def IsChild (top : List mxml_node_t) (i : ℕ) (element : List Char) : Prop :=
  ∃ x, top[i]? = some x ∧ x.depth = 1 ∧ x.element = some element

/-- A record was made for the channel at node `j`, and the node refers to it. -/
structure Collected (top : List mxml_node_t) (r : Collect) (j : ℕ) : Prop where
  child : IsChild top j sChannel
  record : ∃ k, k < r.config.nchans ∧ r.user j = k + 1

/-- Link `l` is the one of node `i`, and its two channels are those of the nodes `j`, `k`. -/
structure Binds (r : Collect) (i l j k : ℕ) : Prop where
  bound : l < r.nl
  user : r.user i = l + 1
  send : (r.config.link l).send + 1 = r.user j
  ack : (r.config.link l).ack + 1 = r.user k

structure LinksRight (top : List mxml_node_t) (r : Collect) : Prop where
  /-- a link whose channels were collected is bound to them -/
  bound : ∀ i, IsChild top i sLink → ∀ j k, channelOf top i sSend = some j →
    channelOf top i sAck = some k → Collected top r j → Collected top r k → ∃ l, Binds r i l j k
  /-- and no link is bound to other channels -/
  only : ∀ l, l < r.nl → ∃ i j k, IsChild top i sLink ∧ channelOf top i sSend = some j ∧
    channelOf top i sAck = some k ∧ Collected top r j ∧ Collected top r k ∧ Binds r i l j k

/-- A link of the topology both of whose channels are channels of the topology. -/
def HasLink (top : List mxml_node_t) : Prop :=
  ∃ i j k, IsChild top i sLink ∧ channelOf top i sSend = some j ∧ channelOf top i sAck = some k ∧
    IsChild top j sChannel ∧ IsChild top k sChannel

section

variable {domain_id node_id fuel i : ℕ} {top : List mxml_node_t} {s s' : Collect} {x : mxml_node_t}
  {registered : ℕ → ℕ → mcapi_database} {late : ℕ → ℕ → Bool} {user : ℕ → ℕ}

/-! ## Nothing is valid while it is collected -/

/-- No endpoint and no channel is valid, no channel has a request, and no link is bound. -/
structure Unbound (s : Collect) : Prop where
  fresh : Fresh s.config
  links : s.nl = 0

theorem Unbound.error (h : Unbound s) : Unbound s.error := ⟨⟨h.1.1, h.1.2, h.1.3⟩, h.2⟩

theorem Unbound.setUser (h : Unbound s) (i v : ℕ) : Unbound (s.setUser i v) :=
  ⟨⟨h.1.1, h.1.2, h.1.3⟩, h.2⟩

theorem Unbound.withConfig {config : mcapi_config_t} (h : Unbound s) (hc : Fresh config) :
    Unbound { s with config := config } := ⟨hc, h.2⟩

/-- An endpoint that is not valid is written. -/
theorem Fresh.setEndpoint {config : mcapi_config_t} (h : Fresh config) {n k : ℕ}
    {tuple : ℕ → mcapi_endpoint_tuple_t} {ep : mcapi_endpoint_cfg_t} (hep : ep.valid = false) :
    Fresh { config with nep := n, tuple := tuple, endpoint := Function.update config.endpoint k ep } where
  endpoint j := by
    by_cases hj : j = k
    · subst hj
      simpa using hep
    · simpa [Function.update_of_ne hj] using h.endpoint j
  chan := h.chan
  request := h.request

/-- A channel that is not valid and has no request is written. -/
theorem Fresh.setChan {config : mcapi_config_t} (h : Fresh config) {n k : ℕ} {c : mcapi_chan_cfg_t}
    (hvalid : c.valid = false) (hrequest : c.request = none) :
    Fresh { config with nchans := n, chan := Function.update config.chan k c } where
  endpoint := h.endpoint
  chan j := by
    by_cases hj : j = k
    · subst hj
      simpa using hvalid
    · simpa [Function.update_of_ne hj] using h.chan j
  request j := by
    by_cases hj : j = k
    · subst hj
      simpa using hrequest
    · simpa [Function.update_of_ne hj] using h.request j

theorem Unbound.claimEndpoints (h : Unbound s) (l r : ℕ) : Unbound (claimEndpoints s l r) := by
  have hset : ∀ config : mcapi_config_t, Fresh config → ∀ k, Fresh (setInitialized config k) :=
    fun config hf k => hf.setEndpoint (hf.endpoint k)
  have hused : ∀ config : mcapi_config_t, Fresh config → ∀ k, Fresh (setUsed config k) :=
    fun config hf k => ⟨hf.1, hf.2, hf.3⟩
  unfold Topology.claimEndpoints
  split
  · exact h.error
  · dsimp only
    split
    · exact ⟨hset _ (hused _ h.fresh l) l, h.links⟩
    · exact ⟨hset _ (hset _ (hused _ h.fresh l) l) r, h.links⟩

theorem Unbound.collectEndpoint (h : Unbound s) (hrun : collectEndpoint i x s = some s') :
    Unbound s' := by
  unfold Topology.collectEndpoint at hrun
  split at hrun
  · exact Option.some.inj hrun ▸ h.error
  · split at hrun
    · exact Option.some.inj hrun ▸ h.error
    · split at hrun
      · rw [← Option.some.inj hrun]
        exact (h.withConfig (h.fresh.setEndpoint rfl)).setUser _ _
      · exact Option.some.inj hrun ▸ h.error

theorem Unbound.collectChannel (h : Unbound s)
    (hrun : collectChannel domain_id node_id top i x s = some s') : Unbound s' := by
  unfold Topology.collectChannel at hrun
  split at hrun
  · exact Option.some.inj hrun ▸ h.error
  · split at hrun
    · exact Option.some.inj hrun ▸ h.error
    · split at hrun
      · exact Option.some.inj hrun ▸ h.error
      · obtain ⟨f, -, hrun⟩ := Option.bind_eq_some_iff.mp hrun
        obtain ⟨t, -, hrun⟩ := Option.bind_eq_some_iff.mp hrun
        split at hrun
        · dsimp only at hrun
          split at hrun
          · rw [← Option.some.inj hrun]
            have hrecord : ∀ c : mcapi_chan_cfg_t, c.valid = false → c.request = none →
                Unbound ({ s with config := { s.config with
                  nchans := s.config.nchans + 1
                  chan := Function.update s.config.chan s.config.nchans c } }.setUser i
                    (s.config.nchans + 1)) :=
              fun c hv hr => (h.withConfig (h.fresh.setChan hv hr)).setUser _ _
            split
            · exact (hrecord _ rfl rfl).claimEndpoints _ _
            · exact (hrecord _ rfl rfl).claimEndpoints _ _
            · exact hrecord _ rfl rfl
          · cases hrun
        · exact Option.some.inj hrun ▸ h.error

/-- A link is left as it is: its channels are not valid. -/
theorem Unbound.collectLink (h : Unbound s) (hrun : collectLink top i x s = some s') :
    Unbound s' ∧ (s' = s.error ∨ s' = s.setUser i 0 ∨ s' = (s.setUser i 0).error) := by
  unfold Topology.collectLink at hrun
  split at hrun
  · exact Option.some.inj hrun ▸ ⟨h.error, .inl rfl⟩
  · split at hrun
    · exact Option.some.inj hrun ▸ ⟨h.error, .inl rfl⟩
    · split at hrun
      · exact Option.some.inj hrun ▸ ⟨h.error, .inl rfl⟩
      · dsimp only at hrun
        split at hrun
        · obtain ⟨j, -, hrun⟩ := Option.bind_eq_some_iff.mp hrun
          obtain ⟨k, -, hrun⟩ := Option.bind_eq_some_iff.mp hrun
          have hinvalid : ¬ ((((s.setUser i 0).config.chan ((s.setUser i 0).user j - 1)).valid &&
              ((s.setUser i 0).config.chan ((s.setUser i 0).user k - 1)).valid) = true) := by
            have hv := h.fresh.chan ((s.setUser i 0).user j - 1)
            rw [show ((s.setUser i 0).config.chan ((s.setUser i 0).user j - 1)).valid = false from hv]
            simp
          split at hrun
          · split at hrun
            · exact Option.some.inj hrun ▸ ⟨h.setUser i 0, .inr (.inl rfl)⟩
            · cases hrun
          · exact Option.some.inj hrun ▸ ⟨h.setUser i 0, .inr (.inl rfl)⟩
        · exact Option.some.inj hrun ▸ ⟨(h.setUser i 0).error, .inr (.inr rfl)⟩

theorem markEndpoint_some (hrun : markEndpoint registered late fuel i s = some s') :
    s'.config = s.config ∧ s'.user = s.user ∧ s'.nl = s.nl ∧ (s'.rc = true → s.rc = true) := by
  unfold markEndpoint at hrun
  split at hrun
  · rw [← Option.some.inj hrun]
    exact ⟨rfl, rfl, rfl, id⟩
  · obtain ⟨found, -, hs'⟩ := Option.map_eq_some_iff.mp hrun
    rw [← hs']
    split
    · exact ⟨rfl, rfl, rfl, id⟩
    · exact ⟨rfl, rfl, rfl, fun h => by cases h⟩

/-- A loop over the children keeps what its body keeps. -/
theorem forChild_some {element : List Char} {body : ℕ → mxml_node_t → Collect → Option Collect}
    (hrun : forChild top element body i s = some s') :
    (s' = s ∧ ¬ IsChild top i element) ∨
    ∃ x, top[i]? = some x ∧ x.depth = 1 ∧ x.element = some element ∧ body i x s = some s' := by
  unfold forChild at hrun
  split at hrun
  · rename_i hnone
    refine .inl ⟨(Option.some.inj hrun).symm, ?_⟩
    rintro ⟨y, hy, -⟩
    rw [hnone] at hy
    cases hy
  · rename_i x hx
    split at hrun
    · rename_i hmatch
      exact .inr ⟨x, hx, hmatch.1, hmatch.2, hrun⟩
    · rename_i hmatch
      refine .inl ⟨(Option.some.inj hrun).symm, ?_⟩
      rintro ⟨y, hy, hdepth, helement⟩
      rw [hx, Option.some.injEq] at hy
      subst hy
      exact hmatch ⟨hdepth, helement⟩

/-! ## What is accepted is collected -/

theorem IsChild.element_unique {a b : List Char} (ha : IsChild top i a) (hb : IsChild top i b) :
    a = b := by
  obtain ⟨x, hx, -, hxa⟩ := ha
  obtain ⟨y, hy, -, hyb⟩ := hb
  rw [hx, Option.some.injEq] at hy
  rw [← hy, hxa, Option.some.injEq] at hyb
  exact hyb

theorem IsChild.lt_length {a : List Char} (h : IsChild top i a) : i < top.length := by
  obtain ⟨x, hx, -⟩ := h
  by_contra hle
  rw [List.getElem?_eq_none (by omega)] at hx
  cases hx

theorem claimEndpoints_user (l r : ℕ) : (claimEndpoints s l r).user = s.user := by
  unfold claimEndpoints
  split
  · rfl
  · dsimp only
    split <;> rfl

theorem claimEndpoints_nchans (l r : ℕ) :
    (claimEndpoints s l r).config.nchans = s.config.nchans := by
  unfold claimEndpoints
  split
  · rfl
  · dsimp only
    split <;> rfl

theorem claimEndpoints_rc {l r : ℕ} (h : (claimEndpoints s l r).rc = true) : s.rc = true := by
  unfold claimEndpoints at h
  split at h
  · cases h
  · dsimp only at h
    split at h
    · cases h
    · exact h

/-- Without an error the node refers to a new record. -/
theorem collectChannel_some (hrun : collectChannel domain_id node_id top i x s = some s')
    (hrc : s'.rc = true) : s.rc = true ∧
      s'.user = Function.update s.user i (s.config.nchans + 1) ∧
      s'.config.nchans = s.config.nchans + 1 := by
  have herror : s.error ≠ s' := by
    rintro rfl
    cases hrc
  unfold collectChannel at hrun
  split at hrun
  · exact absurd (Option.some.inj hrun) herror
  · split at hrun
    · exact absurd (Option.some.inj hrun) herror
    · split at hrun
      · exact absurd (Option.some.inj hrun) herror
      · obtain ⟨f, -, hrun⟩ := Option.bind_eq_some_iff.mp hrun
        obtain ⟨t, -, hrun⟩ := Option.bind_eq_some_iff.mp hrun
        split at hrun
        · dsimp only at hrun
          split at hrun
          · rw [← Option.some.inj hrun] at hrc ⊢
            split at hrc
            · have hold := claimEndpoints_rc hrc
              exact ⟨hold, claimEndpoints_user _ _, claimEndpoints_nchans _ _⟩
            · have hold := claimEndpoints_rc hrc
              exact ⟨hold, claimEndpoints_user _ _, claimEndpoints_nchans _ _⟩
            · exact ⟨hrc, rfl, rfl⟩
          · cases hrun
        · exact absurd (Option.some.inj hrun) herror

/-- The channels before node `m` have records, if there was no error. -/
def CollectedBefore (top : List mxml_node_t) (m : ℕ) (s : Collect) : Prop :=
  s.rc = true → ∀ j, j < m → IsChild top j sChannel →
    ∃ k, k < s.config.nchans ∧ s.user j = k + 1

theorem CollectedBefore.channel {m : ℕ} (h : CollectedBefore top m s)
    (hrun : forChild top sChannel (collectChannel domain_id node_id top) m s = some s') :
    CollectedBefore top (m + 1) s' := by
  intro hrc j hj hchild
  rcases forChild_some hrun with ⟨rfl, hnot⟩ | ⟨x, -, -, -, hbody⟩
  · have hne : j ≠ m := by
      rintro rfl
      exact hnot hchild
    exact h hrc j (by omega) hchild
  · obtain ⟨hold, huser, hn⟩ := collectChannel_some hbody hrc
    rw [huser, hn]
    by_cases hjm : j = m
    · subst hjm
      exact ⟨s.config.nchans, by omega, Function.update_self ..⟩
    · obtain ⟨k, hk, hkj⟩ := h hold j (by omega) hchild
      exact ⟨k, by omega, by rw [Function.update_of_ne hjm, hkj]⟩

/-- The links change the user data of their own nodes only. -/
theorem CollectedBefore.link {m n : ℕ} (h : CollectedBefore top n s) (hu : Unbound s)
    (hrun : forChild top sLink (collectLink top) m s = some s') : CollectedBefore top n s' := by
  rcases forChild_some hrun with ⟨rfl, -⟩ | ⟨x, hx, hdepth, helement, hbody⟩
  · exact h
  · obtain ⟨-, rfl | rfl | rfl⟩ := hu.collectLink hbody
    · intro hrc
      cases hrc
    · intro hrc j hj hchild
      have hne : j ≠ m := by
        rintro rfl
        have hsame := hchild.element_unique ⟨x, hx, hdepth, helement⟩
        exact absurd hsame (by decide)
      obtain ⟨k, hk, hkj⟩ := h hrc j hj hchild
      refine ⟨k, hk, ?_⟩
      simp only [Collect.setUser, Function.update_of_ne hne]
      exact hkj
    · intro hrc
      cases hrc

theorem Unbound.forChild {element : List Char}
    {body : ℕ → mxml_node_t → Collect → Option Collect} (h : Unbound s)
    (hbody : ∀ x s', body i x s = some s' → Unbound s')
    (hrun : forChild top element body i s = some s') : Unbound s' := by
  rcases forChild_some hrun with ⟨rfl, -⟩ | ⟨x, -, -, -, hx⟩
  · exact h
  · exact hbody x s' hx

/-- What the call returns: nothing is valid or bound, and without an error every channel of the
topology has its record. -/
theorem collect_some {r : Collect}
    (hrun : mcapi_trans_collect domain_id node_id top registered late fuel user = some r) :
    Unbound r ∧ CollectedBefore top top.length r := by
  obtain ⟨s₁, h1, hrun⟩ := Option.bind_eq_some_iff.mp hrun
  obtain ⟨s₂, h2, hrun⟩ := Option.bind_eq_some_iff.mp hrun
  obtain ⟨s₃, h3, h4⟩ := Option.bind_eq_some_iff.mp hrun
  have hendpoints := forLoop_inv (fun _ => Unbound)
    (fun m s s' _ h hstep => h.forChild (fun x s' hx => h.collectEndpoint hx) hstep)
    ⟨⟨fun _ => rfl, fun _ => rfl, fun _ => rfl⟩, rfl⟩ h1
  have hchannels := forLoop_inv (fun m s => Unbound s ∧ CollectedBefore top m s)
    (fun m s s' _ h hstep =>
      ⟨h.1.forChild (fun x s' hx => h.1.collectChannel hx) hstep, h.2.channel hstep⟩)
    ⟨hendpoints, fun _ j hj => by omega⟩ h2
  have hlinks := forLoop_inv (fun _ s => Unbound s ∧ CollectedBefore top top.length s)
    (fun m s s' _ h hstep =>
      ⟨h.1.forChild (fun x s' hx => (h.1.collectLink hx).1) hstep, h.2.link h.1 hstep⟩)
    hchannels h3
  refine forLoop_inv (fun _ s => Unbound s ∧ CollectedBefore top top.length s)
    (fun m s s' _ h hstep => ?_) hlinks h4
  obtain ⟨hconfig, huser, hnl, hrc⟩ := markEndpoint_some hstep
  refine ⟨⟨hconfig ▸ h.1.fresh, hnl.trans h.1.links⟩, fun hrc' j hj hchild => ?_⟩
  rw [hconfig, huser]
  exact h.2 (hrc hrc') j hj hchild

/-- The configuration is one that `mcapi_trans_connect` can start from. -/
theorem collect_fresh {r : Collect}
    (hrun : mcapi_trans_collect domain_id node_id top registered late fuel user = some r) :
    Fresh r.config := (collect_some hrun).1.fresh

/-- Of a topology that is accepted every channel is collected. -/
theorem accepted_collects {r : Collect}
    (hrun : mcapi_trans_collect domain_id node_id top registered late fuel user = some r)
    (hrc : r.rc = true) {j : ℕ} (hchild : IsChild top j sChannel) : Collected top r j :=
  ⟨hchild, (collect_some hrun).2 hrc j hchild.lt_length hchild⟩

/-- **The links of an accepted topology are bound** to their channels exactly if there is no
link between two of its channels. -/
theorem links_right_iff {r : Collect}
    (hrun : mcapi_trans_collect domain_id node_id top registered late fuel user = some r)
    (hrc : r.rc = true) : LinksRight top r ↔ ¬ HasLink top := by
  have hnone := (collect_some hrun).1.links
  constructor
  · rintro hright ⟨i, j, k, hlink, hsend, hack, hj, hk⟩
    obtain ⟨l, hbinds⟩ := hright.bound i hlink j k hsend hack (accepted_collects hrun hrc hj)
      (accepted_collects hrun hrc hk)
    have hlt := hbinds.bound
    omega
  · intro hno
    constructor
    · intro i hlink j k hsend hack hj hk
      exact absurd ⟨i, j, k, hlink, hsend, hack, hj.child, hk.child⟩ hno
    · intro l hl
      omega

end

/-! ## A topology of two nodes -/

/-- An element with a name and other attributes. -/
def named (depth : ℕ) (element name : List Char) (attrs : List (List Char × List Char)) :
    mxml_node_t := ⟨depth, some element, (sName, name) :: attrs⟩

/-- The endpoint of a port. -/
def portEndpoint (name node port : List Char) : mxml_node_t :=
  named 1 sEndpoint name [(sDomain, ['1']), (sNode, node), (sPort, port)]

/-- A packet channel between two endpoints. -/
def packetChannel (name source target : List Char) : List mxml_node_t :=
  [named 1 sChannel name [(sType, ['p', 'k', 't'])], ⟨2, some sFrom, [(sEndpoint, source)]⟩,
    ⟨2, some sTo, [(sEndpoint, target)]⟩]

/-- Two nodes with a channel in each direction. -/
def twoChannels : List mxml_node_t :=
  [portEndpoint ['a'] ['1'] ['1', '0'], portEndpoint ['b'] ['2'] ['2', '0'],
    portEndpoint ['c'] ['2'] ['2', '1'], portEndpoint ['d'] ['1'] ['1', '1']] ++
  packetChannel ['x'] ['a'] ['b'] ++ packetChannel ['y'] ['c'] ['d']

/-- The two channels are a full duplex link. -/
def twoChannelsLinked : List mxml_node_t :=
  twoChannels ++ [named 1 sLink ['z'] [(sType, sFullduplex)], ⟨2, some sSend, [(sChannel, ['x'])]⟩,
    ⟨2, some sAck, [(sChannel, ['y'])]⟩]

/-- Both nodes are registered. -/
def bothRegistered : mcapi_database :=
  ⟨fun d => ⟨2, ⟨1, d == 0, d == 0⟩, fun n =>
    ⟨⟨n + 1, decide (n < 2), decide (n < 2), false⟩, 0, fun _ => .zero, 0⟩⟩⟩

/-- Node 1 collects a topology. -/
def collectPair (top : List mxml_node_t) : Option Collect :=
  mcapi_trans_collect 1 1 top (fun _ _ => bothRegistered) (fun _ _ => false) 1 fun _ => 0

/-- Without the link there is nothing to bind. -/
theorem two_channels_right : ∃ r, collectPair twoChannels = some r ∧ LinksRight twoChannels r := by
  have hrun : (collectPair twoChannels).map Collect.rc = some true := by decide +kernel
  obtain ⟨r, hr, hrc⟩ := Option.map_eq_some_iff.mp hrun
  refine ⟨r, hr, (links_right_iff hr hrc).mpr ?_⟩
  rintro ⟨i, -, -, ⟨x, hx, -, helement⟩, -⟩
  have hno : ∀ x ∈ twoChannels, x.element ≠ some sLink := by decide +kernel
  exact hno x (List.mem_of_getElem? hx) helement

/-- The topology with the link is accepted, its two channels are collected, and the link is not
bound. -/
theorem two_channels_unlinked : ∃ r, collectPair twoChannelsLinked = some r ∧ r.rc = true ∧
    r.config.nchans = 2 ∧ r.nl = 0 ∧ ¬ LinksRight twoChannelsLinked r := by
  have hrun : (collectPair twoChannelsLinked).map
      (fun r => (r.rc, r.config.nchans, r.nl, r.user 4, r.user 7)) = some (true, 2, 0, 1, 2) := by
    decide +kernel
  obtain ⟨r, hr, hfields⟩ := Option.map_eq_some_iff.mp hrun
  obtain ⟨hrc, hn, hnl, hx, hy⟩ : r.rc = true ∧ r.config.nchans = 2 ∧ r.nl = 0 ∧ r.user 4 = 1 ∧
      r.user 7 = 2 := by simpa only [Prod.mk.injEq] using hfields
  refine ⟨r, hr, hrc, hn, hnl, fun hright => ?_⟩
  have hlink : IsChild twoChannelsLinked 10 sLink := ⟨_, rfl, rfl, rfl⟩
  obtain ⟨l, hbinds⟩ := hright.bound 10 hlink 4 7 (by decide +kernel) (by decide +kernel)
    ⟨⟨_, rfl, rfl, rfl⟩, 0, by omega, hx⟩ ⟨⟨_, rfl, rfl, rfl⟩, 1, by omega, hy⟩
  have hlt := hbinds.bound
  omega

end MxApi.Topology
