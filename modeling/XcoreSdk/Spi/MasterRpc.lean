import XcoreSdk.Lib.Work
import Mathlib.Data.List.FinRange
/-!
# Setting up the SPI master's clients

On the host `rtos_spi_master_rpc_host_init` outputs to each client in turn the
address of its instance, and then a word for each device;
`rtos_spi_master_rpc_client_init` inputs them. Each client has a channel of its
own, which takes some words before its output waits.
-/

namespace Spi.MasterRpc

abbrev Word := BitVec 32

/-! ## The host -/

/-- The loop over the devices for client `i`. Reading behind the end of the array has no result. -/
def device_loop (spi_device_ctx : List Word) (i : Nat) : Nat → Option (List Word)
  | 0 => some []
  | j + 1 => (spi_device_ctx[i]?).bind fun word => (device_loop spi_device_ctx i j).map (word :: ·)

/-- The loop over these clients. -/
def client_loop {n : Nat} (spi_master_ctx : Word) (spi_device_ctx : List Word) : List (Fin n) → Option (List (Fin n × Word))
  | [] => some []
  | i :: rest =>
    (device_loop spi_device_ctx i spi_device_ctx.length).bind fun words =>
      (client_loop spi_master_ctx spi_device_ctx rest).map fun outputs =>
        (i, spi_master_ctx) :: words.map (fun word => (i, word)) ++ outputs

/-- What is output, in order and with the client that it is for. -/
def rtos_spi_master_rpc_host_init (spi_master_ctx : Word) (spi_device_ctx : List Word) (remote_client_count : Nat) :
    Option (List (Fin remote_client_count × Word)) :=
  client_loop spi_master_ctx spi_device_ctx (List.finRange remote_client_count)

/-! ## The clients -/

/-- The instance of a client, and its devices' `host_dev_ctx_ptr`. -/
structure Client where
  host_ctx_ptr : Word
  host_dev_ctx_ptr : List Word
deriving DecidableEq

/-- After these inputs. -/
def rtos_spi_master_rpc_client_init (spi_device_count : Nat) : List Word → Option Client
  | [] => none
  | host_ctx_ptr :: words => if words.length = spi_device_count then some ⟨host_ctx_ptr, words⟩ else none

/-! ## All together -/

structure State (n : Nat) where
  /-- What the host has still to output. -/
  host : List (Fin n × Word)
  channel : Fin n → List Word
  /-- What the clients have input. -/
  client : Fin n → List Word

inductive Act (n : Nat)
  | host
  | client (k : Fin n)

/-- `s_chan_out_word` waits while there are more than `depth` words in the channel, `s_chan_in_word` while it is empty. -/
def machine (n spi_device_count depth : Nat) (outputs : List (Fin n × Word)) : Machine (State n) (Act n) where
  init s := s = ⟨outputs, fun _ => [], fun _ => []⟩
  step s
    | .host =>
      match s.host with
      | [] => none
      | (k, word) :: host =>
        if (s.channel k).length ≤ depth then
          some { s with host, channel := Function.update s.channel k (s.channel k ++ [word]) }
        else none
    | .client k =>
      match s.channel k with
      | [] => none
      | word :: words =>
        if (s.client k).length < 1 + spi_device_count then
          some { s with
            channel := Function.update s.channel k words
            client := Function.update s.client k (s.client k ++ [word]) }
        else none

/-- Everybody is through, nothing is left in a channel, and the clients hold the host's addresses. -/
structure Done {n : Nat} (spi_master_ctx : Word) (spi_device_ctx : List Word) (s : State n) : Prop where
  host : s.host = []
  channel : ∀ k, s.channel k = []
  client : ∀ k, rtos_spi_master_rpc_client_init spi_device_ctx.length (s.client k) = some ⟨spi_master_ctx, spi_device_ctx⟩

/-- However host and clients take turns, they come to rest, and then it is done. -/
def Handshake (spi_master_ctx : Word) (spi_device_ctx : List Word) (remote_client_count depth : Nat) : Prop :=
  ∃ outputs, rtos_spi_master_rpc_host_init spi_master_ctx spi_device_ctx remote_client_count = some outputs ∧
    ∀ as s, (machine remote_client_count spi_device_ctx.length depth outputs).Run Machine.Free
        ⟨outputs, fun _ => [], fun _ => []⟩ as s →
      as.length ≤ 2 * outputs.length ∧
      ((∀ a, (machine remote_client_count spi_device_ctx.length depth outputs).step s a = none) →
        Done spi_master_ctx spi_device_ctx s)

/-! ## The outputs -/

section Outputs
variable {n : Nat} {spi_master_ctx word : Word} {spi_device_ctx : List Word} {i j : Nat}

/-- All the words of a client are one of the array. -/
theorem device_loop_eq (h : spi_device_ctx[i]? = some word) : device_loop spi_device_ctx i j = some (List.replicate j word) := by
  induction j with
  | zero => rfl
  | succ j ih =>
    rw [device_loop, h, Option.bind_some, ih]
    rfl

theorem device_loop_some {words : List Word} (h : device_loop spi_device_ctx i j = some words) :
    j = 0 ∧ words = [] ∨ ∃ word, spi_device_ctx[i]? = some word ∧ words = List.replicate j word := by
  cases j with
  | zero => exact .inl ⟨rfl, (Option.some.inj h).symm⟩
  | succ j =>
    obtain ⟨word, hword, -⟩ := Option.bind_eq_some_iff.1 h
    rw [device_loop_eq hword] at h
    exact .inr ⟨word, hword, (Option.some.inj h).symm⟩

/-- The words for one client. -/
def words_for (k : Fin n) (outputs : List (Fin n × Word)) : List Word := (outputs.filter (·.1 = k)).map Prod.snd

theorem words_for_append (k : Fin n) (xs ys : List (Fin n × Word)) :
    words_for k (xs ++ ys) = words_for k xs ++ words_for k ys := by
  rw [words_for, List.filter_append, List.map_append]
  rfl

theorem words_for_cons (k i : Fin n) (word : Word) (xs : List (Fin n × Word)) :
    words_for k ((i, word) :: xs) = if i = k then word :: words_for k xs else words_for k xs := by
  rw [words_for, List.filter_cons]
  dsimp only
  split
  · rename_i h
    rw [if_pos (of_decide_eq_true h)]
    rfl
  · rename_i h
    rw [if_neg (of_decide_eq_false (Bool.eq_false_iff.2 h))]
    rfl

theorem words_for_map (k i : Fin n) (words : List Word) :
    words_for k (words.map fun word => (i, word)) = if i = k then words else [] := by
  induction words with
  | nil => rw [List.map_nil, ite_self]; rfl
  | cons word words ih =>
    rw [List.map_cons, words_for_cons, ih]
    split
    · rfl
    · rfl

/-- The words for a client: the host's instance, and as many devices as there are. -/
theorem client_loop_words {clients : List (Fin n)} {outputs : List (Fin n × Word)} (hclients : clients.Nodup)
    (h : client_loop spi_master_ctx spi_device_ctx clients = some outputs) (k : Fin n) :
    (k ∉ clients → words_for k outputs = []) ∧ (k ∈ clients → ∃ words,
      device_loop spi_device_ctx k spi_device_ctx.length = some words ∧ words_for k outputs = spi_master_ctx :: words) := by
  induction clients generalizing outputs with
  | nil =>
    obtain rfl := Option.some.inj h
    exact ⟨fun _ => rfl, fun hk => absurd hk List.not_mem_nil⟩
  | cons i rest ih =>
    obtain ⟨hi, hrest⟩ := List.nodup_cons.1 hclients
    obtain ⟨words, hwords, h⟩ := Option.bind_eq_some_iff.1 h
    obtain ⟨later, hlater, rfl⟩ := Option.map_eq_some_iff.1 h
    obtain ⟨hout, hin⟩ := ih hrest hlater
    rw [List.cons_append, words_for_cons, words_for_append, words_for_map]
    by_cases hik : i = k
    · subst hik
      rw [if_pos rfl, if_pos rfl, hout hi, List.append_nil]
      exact ⟨fun hk => absurd (List.mem_cons_self ..) hk, fun _ => ⟨words, hwords, rfl⟩⟩
    · rw [if_neg hik, if_neg hik, List.nil_append]
      refine ⟨fun hk => hout fun hmem => hk (List.mem_cons_of_mem _ hmem), fun hk => hin ?_⟩
      exact (List.mem_cons.1 hk).resolve_left fun heq => hik heq.symm

end Outputs

/-! ## Runs -/

section Runs
open scoped BigOperators
variable {n spi_device_count depth : Nat} {outputs : List (Fin n × Word)} {s s' : State n}

/-- Of a client's words some have been input, some are in its channel, and the others are still to come. -/
def Inv (outputs : List (Fin n × Word)) (s : State n) : Prop :=
  ∀ k, s.client k ++ s.channel k ++ words_for k s.host = words_for k outputs

/-- A word is output and input. -/
def State.work (s : State n) : Nat := 2 * s.host.length + ∑ k, (s.channel k).length

variable (outputs) in
theorem inv_start : Inv outputs ⟨outputs, fun _ => [], fun _ => []⟩ := fun _ => rfl

theorem work_start : State.work ⟨outputs, fun _ => [], fun _ => []⟩ = 2 * outputs.length := by
  unfold State.work
  simp

theorem host_step (h : Inv outputs s) (hs : (machine n spi_device_count depth outputs).step s .host = some s') :
    Inv outputs s' ∧ s'.work < s.work := by
  simp only [machine] at hs
  split at hs
  · cases hs
  · rename_i k word host hhost
    split at hs
    · obtain rfl := Option.some.inj hs
      refine ⟨fun k' => ?_, ?_⟩
      · have hk := h k'
        rw [hhost, words_for_cons] at hk
        by_cases heq : k = k'
        · subst heq
          rw [if_pos rfl] at hk
          dsimp only
          rw [Function.update_self, ← hk]
          simp only [List.append_assoc, List.singleton_append]
        · rw [if_neg heq] at hk
          dsimp only
          rw [Function.update_of_ne (Ne.symm heq), hk]
      · have hsum := sum_update s.channel List.length k (s.channel k ++ [word])
        rw [List.length_append, List.length_singleton] at hsum
        unfold State.work
        rw [hhost, List.length_cons]
        dsimp only
        omega
    · cases hs

theorem client_step {k : Fin n} (h : Inv outputs s)
    (hs : (machine n spi_device_count depth outputs).step s (.client k) = some s') : Inv outputs s' ∧ s'.work < s.work := by
  simp only [machine] at hs
  split at hs
  · cases hs
  · rename_i word words hchannel
    split at hs
    · obtain rfl := Option.some.inj hs
      refine ⟨fun k' => ?_, ?_⟩
      · have hk := h k'
        dsimp only
        by_cases heq : k' = k
        · subst heq
          rw [Function.update_self, Function.update_self, ← hk, hchannel]
          simp only [List.append_assoc, List.cons_append, List.nil_append]
        · rw [Function.update_of_ne heq, Function.update_of_ne heq, hk]
      · have hsum := sum_update s.channel List.length k words
        rw [hchannel, List.length_cons] at hsum
        unfold State.work
        dsimp only
        omega
    · cases hs

theorem step_inv {a : Act n} (h : Inv outputs s) (hs : (machine n spi_device_count depth outputs).step s a = some s') :
    Inv outputs s' ∧ s'.work < s.work := by
  cases a with
  | host => exact host_step h hs
  | client k => exact client_step h hs

/-- At rest all words have been input. -/
theorem rest_inv (h : Inv outputs s)
    (hwords : ∀ k, (words_for k outputs).length = 1 + spi_device_count)
    (hrest : ∀ a, (machine n spi_device_count depth outputs).step s a = none) :
    s.host = [] ∧ (∀ k, s.channel k = []) ∧ ∀ k, s.client k = words_for k outputs := by
  have hchannel : ∀ k, s.channel k = [] := by
    intro k
    by_contra hsome
    obtain ⟨word, words, hcons⟩ := List.exists_cons_of_ne_nil hsome
    have hclient := hrest (.client k)
    have htotal := congrArg List.length (h k)
    rw [hcons, List.length_append, List.length_append, List.length_cons, hwords] at htotal
    simp only [machine, hcons] at hclient
    rw [if_pos (by omega)] at hclient
    cases hclient
  have hhost : s.host = [] := by
    by_contra hsome
    obtain ⟨⟨k, word⟩, host, hcons⟩ := List.exists_cons_of_ne_nil hsome
    have hstep := hrest .host
    simp only [machine, hcons, hchannel k, List.length_nil] at hstep
    rw [if_pos (Nat.zero_le _)] at hstep
    cases hstep
  refine ⟨hhost, hchannel, fun k => ?_⟩
  have hk := h k
  rw [hchannel k, hhost, List.append_nil] at hk
  rw [← hk]
  exact (List.append_nil _).symm

end Runs

/-! ## Which addresses the clients get -/

section Addresses
variable {n depth : Nat} {spi_master_ctx : Word} {spi_device_ctx : List Word}

/-- Every client has a device to its own number, and all devices are the same one. -/
def Alike (spi_device_ctx : List Word) (remote_client_count : Nat) : Prop :=
  remote_client_count = 0 ∨ spi_device_ctx = [] ∨
    remote_client_count ≤ spi_device_ctx.length ∧ ∀ d ∈ spi_device_ctx, ∀ d' ∈ spi_device_ctx, d = d'

/-- The addresses that a client gets are the array's. -/
theorem device_loop_alike (k : Fin n) :
    device_loop spi_device_ctx k spi_device_ctx.length = some spi_device_ctx ↔
      spi_device_ctx = [] ∨ k < spi_device_ctx.length ∧ ∀ d ∈ spi_device_ctx, ∀ d' ∈ spi_device_ctx, d = d' := by
  constructor
  · intro h
    rcases device_loop_some h with ⟨-, hnil⟩ | ⟨word, hword, heq⟩
    · exact .inl hnil
    · refine .inr ⟨(List.getElem?_eq_some_iff.1 hword).1, fun d hd d' hd' => ?_⟩
      rw [heq] at hd hd'
      rw [List.eq_of_mem_replicate hd, List.eq_of_mem_replicate hd']
  · rintro (rfl | ⟨hk, hsame⟩)
    · rfl
    · rw [device_loop_eq (List.getElem?_eq_getElem hk)]
      refine congrArg some (List.eq_replicate_iff.2 ⟨rfl, fun d hd => ?_⟩).symm
      exact hsame d hd _ (List.getElem_mem hk)

theorem alike_iff : Alike spi_device_ctx n ↔
    ∀ k : Fin n, device_loop spi_device_ctx k spi_device_ctx.length = some spi_device_ctx := by
  constructor
  · rintro (rfl | rfl | ⟨hle, hsame⟩) k
    · exact k.elim0
    · rfl
    · exact (device_loop_alike k).2 (.inr ⟨by omega, hsame⟩)
  · intro h
    by_cases hn : n = 0
    · exact .inl hn
    · rcases (device_loop_alike _).1 (h ⟨n - 1, by omega⟩) with hnil | ⟨hlt, hsame⟩
      · exact .inr (.inl hnil)
      · exact .inr (.inr ⟨by simp only at hlt; omega, hsame⟩)

variable (spi_master_ctx) in
theorem client_loop_defined (clients : List (Fin n))
    (h : ∀ k : Fin n, device_loop spi_device_ctx k spi_device_ctx.length = some spi_device_ctx) :
    ∃ outputs, client_loop spi_master_ctx spi_device_ctx clients = some outputs := by
  induction clients with
  | nil => exact ⟨[], rfl⟩
  | cons k rest ih =>
    obtain ⟨outputs, hrest⟩ := ih
    exact ⟨_, by rw [client_loop, h k, Option.bind_some, hrest]; rfl⟩

theorem handshake_of_alike (h : Alike spi_device_ctx n) :
    Handshake spi_master_ctx spi_device_ctx n depth := by
  have hdevices := alike_iff.1 h
  obtain ⟨outputs, houtputs⟩ := client_loop_defined spi_master_ctx (List.finRange n) hdevices
  have hwords : ∀ k, words_for k outputs = spi_master_ctx :: spi_device_ctx := by
    intro k
    obtain ⟨words, hloop, hfor⟩ := (client_loop_words (List.nodup_finRange n) houtputs k).2 (List.mem_finRange k)
    rw [hfor, Option.some.inj (hloop.symm.trans (hdevices k))]
  refine ⟨outputs, houtputs, fun as s hrun => ⟨?_, fun hrest => ?_⟩⟩
  · rw [← work_start]
    exact hrun.length_le (I := Inv outputs) (fun _ _ _ hinv _ hs => step_inv hinv hs) (inv_start outputs)
  · have hinv := hrun.inv (I := Inv outputs) (fun _ _ _ hinv _ hs => (step_inv hinv hs).1) (inv_start outputs)
    obtain ⟨hhost, hchannel, hclient⟩ := rest_inv hinv
      (fun k => by rw [hwords k, List.length_cons, Nat.add_comm]) hrest
    refine ⟨hhost, hchannel, fun k => ?_⟩
    rw [hclient k, hwords k]
    exact if_pos rfl

theorem alike_of_handshake (h : Handshake spi_master_ctx spi_device_ctx n depth) : Alike spi_device_ctx n := by
  obtain ⟨outputs, houtputs, hruns⟩ := h
  refine alike_iff.2 fun k => ?_
  obtain ⟨as, s, hrun, hrest⟩ := Machine.exists_rest (M := machine n spi_device_ctx.length depth outputs)
    (fun _ _ _ hinv hs => step_inv hinv hs) (inv_start outputs)
  obtain ⟨hhost, hchannel, hclient⟩ := (hruns as s hrun).2 hrest
  have hinv := hrun.inv (I := Inv outputs) (fun _ _ _ hinv _ hs => (step_inv hinv hs).1) (inv_start outputs)
  obtain ⟨words, hloop, hfor⟩ := (client_loop_words (List.nodup_finRange n) houtputs k).2 (List.mem_finRange k)
  have hk := hinv k
  rw [hchannel k, hhost, hfor, List.append_nil] at hk
  have hinput : s.client k = spi_master_ctx :: words := (List.append_nil _).symm.trans hk
  have heq := hclient k
  rw [hinput] at heq
  simp only [rtos_spi_master_rpc_client_init] at heq
  split at heq
  · cases heq
    exact hloop
  · cases heq

/-- The set-up is right exactly where there is nothing to tell apart. -/
theorem handshake_iff (spi_master_ctx : Word) (spi_device_ctx : List Word) (remote_client_count depth : Nat) :
    Handshake spi_master_ctx spi_device_ctx remote_client_count depth ↔ Alike spi_device_ctx remote_client_count :=
  ⟨alike_of_handshake, handshake_of_alike⟩

/-- With one client its second device gets the first one's address. -/
theorem handshake_two_devices : ¬ Handshake 0x1000 [0x2000, 0x3000] 1 1 := by
  intro h
  rcases alike_of_handshake h with hn | hnil | ⟨-, hsame⟩
  · cases hn
  · cases hnil
  · exact absurd (hsame 0x2000 (.head _) 0x3000 (.tail _ (.head _))) (by decide)

end Addresses

end Spi.MasterRpc
