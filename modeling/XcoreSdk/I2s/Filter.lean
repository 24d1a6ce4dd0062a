import XcoreSdk.I2s.Transfer
/-!
# A receive filter

With a receive filter, `i2s_receive` offers it the space up to the end of the
receive buffer, where it writes as many words as it likes and says how many. The
rest of the driver is as it is without one.
-/

namespace I2s
variable {w D : Type*}

/-- The application data of the two filters. -/
structure FilterConfig (D : Type*) extends Config where
  send_filter_app_data : D
  receive_filter_app_data : D

/-- The driver, and the application data of every call of the receive filter. Here `recv.written` is what
the filter wrote in its calls, and `.receive words k` is the filter in a call, after `k` of its words. -/
structure Filtered (w D : Type*) where
  driver : Driver w
  app_data : List D

/-- `i2s_receive` up to the filter, which is about to write `words`: they go through it, whatever it makes
of the frame. -/
def i2s_receive_filtered (cfg : FilterConfig D) (s : Filtered w D) (i2s_sample_buf words : List w) : Option (Filtered w D) :=
  match s.driver.io with
  | .idle =>
    let sample_spaces_free := min s.driver.recv.words_free (s.driver.recv.buf_size - s.driver.recv.write_index)
    if 0 < cfg.num_in ∧ i2s_sample_buf.length = 2 * cfg.num_in ∧ words.length ≤ sample_spaces_free then
      some ⟨{ s.driver with io := if 0 < words.length then .receive words 0 else .received },
        s.app_data ++ [cfg.send_filter_app_data]⟩
    else none
  | _ => none

/-- The next step of the I2S thread in a callback: the filter's next word, or what `i2s_receive` does when it returns. -/
def io_step_filtered (cfg : Config) (s : Driver w) : Option (Driver w) :=
  match s.io with
  | .receive words k =>
    match words[k]? with
    | some x => some { s with
        recv := { s.recv with buf := Function.update s.recv.buf (s.recv.write_index + k) x }
        io := .receive words (k + 1) }
    | none => some { s with
        recv := { s.recv with
          write_index := if s.recv.buf_size ≤ s.recv.write_index + 2 * cfg.num_in then 0
            else s.recv.write_index + 2 * cfg.num_in
          total_written := s.recv.total_written + BitVec.ofNat 32 (2 * cfg.num_in)
          written := s.recv.written ++ words }
        io := .received }
  | _ => io_step cfg s

inductive FilterAct (w : Type*)
  | receive (i2s_sample_buf words : List w)
  | other (a : Act w)

def filter_driver (cfg : FilterConfig D) : Machine (Filtered w D) (FilterAct w) where
  init s := (I2s.driver cfg.toConfig).init s.driver ∧ s.app_data = []
  step s
    | .receive i2s_sample_buf words => i2s_receive_filtered cfg s i2s_sample_buf words
    | .other (.receive _) => none
    | .other .io => (io_step_filtered cfg.toConfig s.driver).map fun driver => { s with driver }
    | .other a => ((I2s.driver cfg.toConfig).step s.driver a).map fun driver => { s with driver }

/-! ## What is promised -/

/-- The words that `rtos_i2s_rx` returned are the first ones that the filter wrote, the buffer's counters are
those of its words, and it got its own data. -/
structure FilterSound (cfg : FilterConfig D) (s : Filtered w D) : Prop where
  read : s.driver.recv.read <+: s.driver.recv.written
  write_index : s.driver.recv.write_index = s.driver.recv.written.length % s.driver.recv.buf_size
  total_written : s.driver.recv.total_written = BitVec.ofNat 32 s.driver.recv.written.length
  app_data : ∀ d ∈ s.app_data, d = cfg.receive_filter_app_data

/-- The filter writes nothing or as many words as a frame has, has the same data as the send filter, and
the calls of `rtos_i2s_rx` fit. -/
def FilterFits (cfg : FilterConfig D) (s : Filtered w D) : FilterAct w → Prop
  | .receive _ words => (words.length = 0 ∨ words.length = 2 * cfg.num_in) ∧
      cfg.send_filter_app_data = cfg.receive_filter_app_data
  | .other (.rx frame_count) => Fits cfg.toConfig s.driver (.rx frame_count)
  | .other _ => True

variable {cfg : FilterConfig D} {s s' : Filtered w D}

/-! ## Runs -/

/-- The filter's words take the place of the frame's. -/
theorem receive_inv {i2s_sample_buf words : List w} (h : RecvInv cfg.toConfig s.driver)
    (hc : words.length = 0 ∨ words.length = 2 * cfg.num_in)
    (hs : i2s_receive_filtered cfg s i2s_sample_buf words = some s') : RecvInv cfg.toConfig s'.driver := by
  unfold i2s_receive_filtered at hs
  split at hs
  · rename_i hio
    simp only at hs
    split at hs
    · rename_i hcond
      cases hs
      obtain ⟨hpos, -, hroom⟩ := hcond
      rcases hc with hnone | hframe
      · rw [if_neg (by omega)]
        exact h.frame rfl rfl (by rw [hio]; rfl) nofun
      · rw [if_pos (by omega)]
        apply RecvInv.receive h
        unfold i2s_receive
        rw [hio]
        dsimp only
        rw [if_pos ⟨hpos, hframe⟩, if_pos (hroom.trans (Nat.min_le_left ..))]
    · cases hs
  · cases hs

/-- Where the filter wrote a frame's number of words, `i2s_receive` counts them as without a filter. -/
theorem io_step_filtered_eq {c : Config} {d : Driver w} (h : RecvInv c d) : io_step_filtered c d = io_step c d := by
  unfold io_step_filtered
  split
  · rename_i words k hio
    obtain ⟨-, hlength, -⟩ := h.io words k hio
    rw [io_step, hio]
    dsimp only
    cases words[k]? with
    | some x => rfl
    | none =>
      dsimp only
      rw [hlength]
  · rfl

theorem filter_step {a : FilterAct w} (h : RecvInv cfg.toConfig s.driver ∧ ∀ d ∈ s.app_data, d = cfg.receive_filter_app_data)
    (hc : FilterFits cfg s a) (hs : (filter_driver cfg).step s a = some s') :
    RecvInv cfg.toConfig s'.driver ∧ ∀ d ∈ s'.app_data, d = cfg.receive_filter_app_data := by
  obtain ⟨hinv, hdata⟩ := h
  cases a with
  | receive i2s_sample_buf words =>
    refine ⟨receive_inv hinv hc.1 hs, ?_⟩
    simp only [filter_driver, i2s_receive_filtered] at hs
    split at hs
    · split at hs
      · cases hs
        intro d hd
        rcases List.mem_append.1 hd with hd | hd
        · exact hdata d hd
        · rw [List.mem_singleton.1 hd, hc.2]
      · cases hs
    · cases hs
  | other a =>
    cases a with
    | receive i2s_sample_buf => cases hs
    | io =>
      obtain ⟨d, hd, rfl⟩ := Option.map_eq_some_iff.1 hs
      rw [io_step_filtered_eq hinv] at hd
      exact ⟨hinv.io_step hd, hdata⟩
    | rx frame_count =>
      obtain ⟨d, hd, rfl⟩ := Option.map_eq_some_iff.1 hs
      exact ⟨hinv.step (fun n hn => hn ▸ hc) hd, hdata⟩
    | send | isr | rx_step | rx_timeout | tx _ _ | tx_step | tx_timeout =>
      obtain ⟨d, hd, rfl⟩ := Option.map_eq_some_iff.1 hs
      exact ⟨hinv.step (fun _ hn => by cases hn) hd, hdata⟩

theorem filter_init (h : (filter_driver cfg).init s) :
    RecvInv cfg.toConfig s.driver ∧ ∀ d ∈ s.app_data, d = cfg.receive_filter_app_data :=
  ⟨(inv_init h.1).1, fun _ hd => absurd (h.2 ▸ hd) List.not_mem_nil⟩

/-- In every run whose steps fit, the filter's words go through in order, counted, and it gets its data. -/
theorem filter_fifo (cfg : FilterConfig D) {s : Filtered w D} (h : (filter_driver cfg).Reachable (FilterFits cfg) s) :
    FilterSound cfg s := by
  obtain ⟨hinv, hdata⟩ := h.inv
    (I := fun s => RecvInv cfg.toConfig s.driver ∧ ∀ d ∈ s.app_data, d = cfg.receive_filter_app_data)
    (fun _ => filter_init) fun _ _ _ hinv hc hs => filter_step hinv hc hs
  exact ⟨hinv.rx.contents.read, hinv.write_index, hinv.rx.contents.total_written, hdata⟩

instance [DecidableEq D] (cfg : FilterConfig D) (s : Filtered w D) : ∀ a, Decidable (FilterFits cfg s a)
  | .receive _ words => inferInstanceAs (Decidable ((words.length = 0 ∨ words.length = 2 * cfg.num_in) ∧
      cfg.send_filter_app_data = cfg.receive_filter_app_data))
  | .other (.rx frame_count) => inferInstanceAs (Decidable (Fits cfg.toConfig s.driver (.rx frame_count)))
  | .other (.receive _) | .other .send | .other .io | .other .isr | .other .rx_step | .other .rx_timeout
  | .other (.tx _ _) | .other .tx_step | .other .tx_timeout => isTrue trivial

/-- The filters' data on a driver with one line in and one out. -/
def stereo_filters (send receive : Nat) : FilterConfig Nat := ⟨stereo, send, receive⟩

def filter_started : Filtered Nat Nat := ⟨started, []⟩

theorem filter_started_init (send receive : Nat) : (filter_driver (stereo_filters send receive)).init filter_started :=
  ⟨started_init, rfl⟩

/-- The callback for a frame of which the filter makes `words`. -/
def filteredIn (words : List Nat) : List (FilterAct Nat) :=
  FilterAct.receive [10, 11] words :: List.replicate (words.length + 2) (FilterAct.other Act.io)

/-- A call of `rtos_i2s_rx` that finds a frame. -/
def rxFrame : List (FilterAct Nat) := FilterAct.other (Act.rx 1) :: List.replicate 5 (FilterAct.other Act.rx_step)

/-- A frame, and one that the filter leaves out. -/
theorem filter_fifo_frame : ∃ s : Filtered Nat Nat, (filter_driver (stereo_filters 1 1)).Reachable (FilterFits (stereo_filters 1 1)) s ∧
    s.driver.recv.read = [20, 21] ∧ FilterSound (stereo_filters 1 1) s := by
  have hrun : ((filter_driver (stereo_filters 1 1)).exec (FilterFits (stereo_filters 1 1)) filter_started
      (List.flatten [filteredIn [20, 21], [FilterAct.receive [12, 13] []], rxFrame])).map
        (fun s => s.driver.recv.read) = some [20, 21] := by decide +kernel
  obtain ⟨s, hs, hread⟩ := Option.map_eq_some_iff.1 hrun
  have hreach := Machine.exec_reachable (filter_started_init 1 1) hs
  exact ⟨s, hreach, hread, filter_fifo (stereo_filters 1 1) hreach⟩

/-- A filter that makes one word of two is counted for two: `rtos_i2s_rx` returns a word that it never wrote.
And a filter that has data of its own gets the send filter's. -/
theorem filter_fifo_decimates : (∃ s : Filtered Nat Nat, (filter_driver (stereo_filters 1 1)).Reachable Machine.Free s ∧
      s.driver.recv.written = [20] ∧ s.driver.recv.read = [20, 0] ∧ ¬ FilterSound (stereo_filters 1 1) s) ∧
    ∃ s : Filtered Nat Nat, (filter_driver (stereo_filters 1 2)).Reachable Machine.Free s ∧ s.app_data = [1] ∧
      ¬ FilterSound (stereo_filters 1 2) s := by
  have hrun : ((filter_driver (stereo_filters 1 1)).exec Machine.Free filter_started
      (List.flatten [filteredIn [20], rxFrame])).map (fun s => (s.driver.recv.written, s.driver.recv.read)) =
        some ([20], [20, 0]) := by decide +kernel
  have hcall : ((filter_driver (stereo_filters 1 2)).exec Machine.Free filter_started (filteredIn [20, 21])).map
      (fun s => s.app_data) = some [1] := by decide +kernel
  obtain ⟨s, hs, hobs⟩ := Option.map_eq_some_iff.1 hrun
  obtain ⟨t, ht, hobt⟩ := Option.map_eq_some_iff.1 hcall
  obtain ⟨hwritten, hread⟩ := Prod.mk.inj hobs
  refine ⟨⟨s, Machine.exec_reachable (filter_started_init 1 1) hs, hwritten, hread, fun h => ?_⟩,
    t, Machine.exec_reachable (filter_started_init 1 2) ht, hobt, fun h => ?_⟩
  · have hfirst := h.read
    rw [hwritten, hread] at hfirst
    exact absurd hfirst.length_le (by decide)
  · exact absurd (h.app_data 1 (hobt ▸ List.mem_singleton_self 1)) (by decide)

end I2s
