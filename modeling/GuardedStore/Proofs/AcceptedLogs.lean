import GuardedStore.Proofs.FrameFormat

/-!
# AcceptedLogs — which bytes are a log

A log in its parts is a header, frames one behind the other, and the beginning of a frame that was
not finished (`Log.Parts`).  The payload of each frame writes a change, and the numbers of the
frames increase.  Bytes are accepted exactly if they are empty or have such parts
(`Log.recover_of_parts`, `Log.parts_of_recover`), so opening a log decides every content of a file
(`CommitLog.openAt_accepts`): what is accepted is replayed to the last frame and kept without the
unfinished one, and what is refused is left alone.
-/

namespace GuardedStore

theorem Disk.setContent_setContent (d : Disk) (id : Nat) (c c' : Content) :
    (d.setContent id c).setContent id c' = d.setContent id c' := by
  have hcontents : (d.contents.insert id c).insert id c' = d.contents.insert id c' := by
    refine SortedMap.ext ?_
    intro k
    simp only [SortedMap.get?_insert]
    split <;> rfl
  simp only [Disk.setContent, hcontents]

namespace Log

open Bytes

variable {path : String} {bytes head torn kept : ByteArray} {last : UInt64} {frames : List Frame}
  {commits : List (UInt64 × Change)} {r : Replay}

/-! ## Commits in frames -/

/-- Whether a frame writes a commit. -/
def Frame.Writes (f : Frame) (commit : UInt64 × Change) : Prop :=
  f.seq = commit.1 ∧ Change.unpack? f.payload = some commit.2

theorem writes_frameOf (commit : UInt64 × Change) (h : commit.2.Fits) :
    (frameOf commit).Writes commit := ⟨rfl, unpack?_frameOf commit h⟩

/-- The commits of frames are read exactly if each frame writes one and their numbers increase. -/
theorem readCommits_eq_ok_iff (pos : Nat) :
    readCommits path last (Scan.positions pos frames) = .ok commits ↔
      List.Forall₂ Frame.Writes frames commits ∧ Increasing last commits := by
  induction frames generalizing pos last commits with
  | nil =>
      constructor
      · intro h
        cases h
        exact ⟨.nil, .nil last⟩
      · rintro ⟨h, -⟩
        cases h
        rfl
  | cons f frames ih =>
      rw [Scan.positions, readCommits]
      constructor
      · intro h
        split at h
        · cases h
        · rename_i hseq
          split at h
          · cases h
          · rename_i change hchange
            split at h
            · cases h
            · rename_i rest hrest
              cases h
              rcases (ih _).1 hrest with ⟨hwrites, hincreasing⟩
              exact ⟨.cons ⟨rfl, hchange⟩ hwrites, .cons (UInt64.not_le.1 hseq) hincreasing⟩
      · rintro ⟨hwrites, hincreasing⟩
        cases hwrites with
        | @cons _ commit _ rest hfirst hrest =>
            obtain ⟨seq, change⟩ := commit
            rcases hfirst with ⟨rfl, hchange⟩
            rcases hincreasing.tail with ⟨hlt, htail⟩
            rw [if_neg (UInt64.not_le.2 hlt)]
            simp only [hchange, (ih _).2 ⟨hrest, htail⟩]

/-! ## Logs in their parts -/

/-- A log in its parts. -/
structure Parts (bytes head : ByteArray) (frames : List Frame) (commits : List (UInt64 × Change))
    (torn : ByteArray) : Prop where
  whole : bytes = head ++ Scan.joined frames ++ torn
  header : IsHeader head
  fit : ∀ f ∈ frames, f.bodySize ≤ Frame.largestBody
  writes : List.Forall₂ Frame.Writes frames commits
  increasing : Increasing 0 commits
  unfinished : Unfinished torn

/-- A log of commits that were added one by one has its frames as parts. -/
theorem parts_logBytes (h : Ascending 0 commits) (ht : Unfinished torn) :
    Parts (logBytes commits ++ torn) header (commits.map frameOf) commits torn := by
  refine ⟨rfl, isHeader_header, fits_frameOf (fun _ => h.fits), ?_, h.increasing, ht⟩
  rw [List.forall₂_map_left_iff, List.forall₂_same]
  intro commit hmem
  exact writes_frameOf commit (h.fits hmem)

namespace Parts

/-- What is kept of a log is a log without an unfinished frame. -/
theorem without (h : Parts bytes head frames commits torn) :
    Parts (head ++ Scan.joined frames) head frames commits .empty := by
  refine ⟨?_, h.header, h.fit, h.writes, h.increasing, unfinished_empty⟩
  rw [ByteArray.append_empty]

theorem at_head (h : Parts bytes head frames commits torn) : At bytes 0 head := by
  have hspan := at_append_self .empty head (Scan.joined frames ++ torn)
  rwa [ByteArray.empty_append, ← ByteArray.append_assoc, ← h.whole] at hspan

theorem at_frames (h : Parts bytes head frames commits torn) :
    At bytes headerSize (Scan.joined frames) := by
  have hspan := at_append_self head (Scan.joined frames) torn
  rwa [h.header.size, ← h.whole] at hspan

theorem size_kept (h : Parts bytes head frames commits torn) :
    (head ++ Scan.joined frames).size = headerSize + (Scan.joined frames).size := by
  rw [ByteArray.size_append, h.header.size]

theorem size_eq (h : Parts bytes head frames commits torn) :
    bytes.size = (head ++ Scan.joined frames).size + torn.size :=
  (congrArg ByteArray.size h.whole).trans ByteArray.size_append

theorem extract_kept (h : Parts bytes head frames commits torn) :
    bytes.extract 0 (head ++ Scan.joined frames).size = head ++ Scan.joined frames := by
  rw [h.whole]
  exact ByteArray.extract_append_eq_left rfl

theorem extract_torn (h : Parts bytes head frames commits torn) :
    bytes.extract (head ++ Scan.joined frames).size bytes.size = torn := by
  rw [h.size_eq, h.whole]
  exact ByteArray.extract_append_eq_right rfl rfl

/-- The reading of frames comes to the end of the frames. -/
theorem run_eq (h : Parts bytes head frames commits torn) :
    Scan.run bytes headerSize = ⟨Scan.positions headerSize frames,
      if torn.size = 0 then .finished else .truncated⟩ := by
  have hsize := h.size_eq
  have hframes := Scan.run_frames frames h.at_frames h.fit
  rw [← h.size_kept] at hframes
  -- behind the frames there is nothing, or what is left of one
  split
  · have hstop : Step.read bytes (head ++ Scan.joined frames).size = .finished :=
      Step.read_end (by omega)
    rwa [Scan.run_of_finished hstop, List.append_nil] at hframes
  · have hstop : Step.read bytes (head ++ Scan.joined frames).size = .truncated := by
      rw [Step.read_eq_truncated_iff (by omega), h.extract_torn]
      exact ⟨by omega, h.unfinished⟩
    rwa [Scan.run_of_truncated hstop, List.append_nil] at hframes

end Parts

/-! ## What is accepted -/

/-- A log in its parts is replayed to its last frame, and an unfinished one is cut off. -/
theorem recover_of_parts (path : String) (h : Parts bytes head frames commits torn) :
    recover path bytes = .ok (head ++ Scan.joined frames,
      ⟨commits, Replay.lastOf 0 commits, (head ++ Scan.joined frames).size, torn.size⟩) := by
  have hsize := h.size_eq
  have hkept := h.size_kept
  have hcheck : checkHeader path bytes = .ok () := checkHeader_of_at path h.header h.at_head
  have hcommits : readCommits path 0 (Scan.positions headerSize frames) = .ok commits :=
    (readCommits_eq_ok_iff headerSize).2 ⟨h.writes, h.increasing⟩
  have hstop := Scan.stopAt_positions headerSize frames
    (if torn.size = 0 then .finished else .truncated)
  rw [← hkept] at hstop
  have hnonempty : bytes.size ≠ 0 := by
    unfold headerSize at hkept
    omega
  have hreplay : replay path bytes = .ok ⟨commits, Replay.lastOf 0 commits,
      (head ++ Scan.joined frames).size, torn.size⟩ := by
    simp only [replay, hcheck, h.run_eq, hcommits, hstop]
    by_cases hzero : torn.size = 0
    · simp [hzero]
    · simp [hzero, hsize]
  rw [recover, if_neg hnonempty, hreplay]
  by_cases hzero : torn.size = 0
  · have hempty : torn = .empty := ByteArray.size_eq_zero_iff.1 hzero
    have hwhole := h.whole
    rw [hempty, ByteArray.append_empty] at hwhole
    simp [hzero, hwhole]
  · simp only [if_neg hzero, h.extract_kept]

theorem isHeader_of_checkHeader (h : checkHeader path bytes = .ok ()) :
    headerSize ≤ bytes.size ∧ IsHeader (bytes.extract 0 headerSize) := by
  unfold checkHeader at h
  simp only at h
  split_ifs at h with hshort hmagic hversion
  have hspan : At bytes 0 (bytes.extract 0 headerSize) :=
    at_extract (Nat.zero_le _) (Nat.le_of_not_lt hshort)
  have hsize : (bytes.extract 0 headerSize).size = headerSize :=
    size_extract_of_le (Nat.le_of_not_lt hshort)
  have hread : ∀ i, i + 4 ≤ headerSize →
      natAt (bytes.extract 0 headerSize) i 4 = natAt bytes i 4 := by
    intro i hi
    have hnumber := hspan.natAt i 4 (by rw [hsize]; exact hi)
    rw [← hnumber, Nat.zero_add]
  refine ⟨Nat.le_of_not_lt hshort, hsize, ?_, ?_⟩
  · rw [hread 0 (by decide)]
    exact of_not_not hmagic
  · rw [hread 4 (by decide)]
    exact Nat.le_of_not_lt hversion

/-- Where the reading stops without damage, an unfinished frame is left, or nothing. -/
theorem unfinished_of_reads (h : Scan.Reads bytes headerSize frames)
    (hstop : (Scan.run bytes headerSize).stop ≠ .corrupt) :
    Unfinished (bytes.extract (headerSize + (Scan.joined frames).size) bytes.size) := by
  have hread := h.stop
  have hwithin := h.stand.within
  cases hrun : (Scan.run bytes headerSize).stop with
  | corrupt => exact absurd hrun hstop
  | finished =>
      rw [hrun] at hread
      have hend := Step.read_eq_finished_iff.1 hread
      refine .inl ?_
      rw [size_extract_of_le (Nat.le_refl _)]
      omega
  | truncated =>
      rw [hrun] at hread
      exact ((Step.read_eq_truncated_iff hwithin).1 hread).2

/-- Bytes that are accepted are empty or a log in its parts. -/
theorem parts_of_recover (h : recover path bytes = .ok (kept, r)) (hnonempty : bytes.size ≠ 0) :
    ∃ head frames torn, Parts bytes head frames r.commits torn := by
  rcases recover_ok h hnonempty with ⟨hcheck, hcommits, hstop⟩
  rcases isHeader_of_checkHeader hcheck with ⟨hsize, hheader⟩
  rcases Scan.run_eq bytes hsize with ⟨frames, hreads⟩
  rw [hreads.read, readCommits_eq_ok_iff] at hcommits
  have hwithin := hreads.stand.within
  refine ⟨_, frames, _, ?_, hheader, hreads.fit, hcommits.1, hcommits.2,
    unfinished_of_reads hreads hstop⟩
  -- the bytes are cut behind the header and behind the frames
  calc
    bytes = bytes.extract 0 bytes.size := by rw [ByteArray.extract_zero_size]
    _ = bytes.extract 0 (headerSize + (Scan.joined frames).size) ++
          bytes.extract (headerSize + (Scan.joined frames).size) bytes.size :=
        ByteArray.extract_eq_extract_append_extract _ (Nat.zero_le _) hwithin
    _ = bytes.extract 0 headerSize ++ Scan.joined frames ++
          bytes.extract (headerSize + (Scan.joined frames).size) bytes.size := by
        rw [ByteArray.extract_eq_extract_append_extract headerSize (Nat.zero_le _)
          (Nat.le_add_right _ _), hreads.stand.extract_self]

/-- A log of some commits is accepted only if their numbers ascend. -/
theorem ascending_of_recover (hfits : ∀ commit ∈ commits, commit.2.Fits)
    (h : recover path (logBytes commits) = .ok (kept, r)) : Ascending 0 commits := by
  have hnonempty := size_logBytes_ne_zero commits
  have hrun := run_logBytes hfits torn_empty
  rw [ByteArray.append_empty] at hrun
  rcases recover_ok h hnonempty with ⟨-, hcommits, -⟩
  rw [hrun, readCommits_eq_ok_iff, List.forall₂_map_left_iff] at hcommits
  rcases hcommits with ⟨hwrites, hincreasing⟩
  have hnumbers : commits.map Prod.fst = r.commits.map Prod.fst := by
    rw [← List.forall₂_eq_eq_eq, List.forall₂_map_left_iff, List.forall₂_map_right_iff]
    exact hwrites.imp (fun _ _ hwrite => hwrite.1)
  rw [Increasing, ← hnumbers] at hincreasing
  exact Increasing.ascending hincreasing hfits

/-- Bytes that are accepted, with what is kept of them, the commits that they hold, and what is cut
off. -/
def Accepted (bytes kept : ByteArray) (commits : List (UInt64 × Change)) (torn : ByteArray) :
    Prop :=
  (bytes = .empty ∧ kept = header ∧ commits = [] ∧ torn = .empty) ∨
    ∃ head frames, Parts bytes head frames commits torn ∧ kept = head ++ Scan.joined frames

theorem recover_of_accepted (path : String) (h : Accepted bytes kept commits torn) :
    recover path bytes =
      .ok (kept, ⟨commits, Replay.lastOf 0 commits, kept.size, torn.size⟩) := by
  rcases h with ⟨rfl, rfl, rfl, rfl⟩ | ⟨head, frames, hparts, rfl⟩
  · rfl
  · exact recover_of_parts path hparts

/-- What is kept is accepted again, and nothing is cut off. -/
theorem Accepted.again (h : Accepted bytes kept commits torn) :
    Accepted kept kept commits .empty := by
  rcases h with ⟨rfl, rfl, rfl, rfl⟩ | ⟨head, frames, hparts, rfl⟩
  · have hempty := parts_logBytes (.nil 0) unfinished_empty
    rw [ByteArray.append_empty] at hempty
    exact .inr ⟨header, [], by simpa [logBytes] using hempty, by simp⟩
  · exact .inr ⟨head, frames, hparts.without, rfl⟩

theorem accepted_of_recover (h : recover path bytes = .ok (kept, r)) :
    ∃ kept commits torn, Accepted bytes kept commits torn := by
  by_cases hempty : bytes.size = 0
  · exact ⟨header, [], .empty, .inl ⟨ByteArray.size_eq_zero_iff.1 hempty, rfl, rfl, rfl⟩⟩
  · rcases parts_of_recover h hempty with ⟨head, frames, torn, hparts⟩
    exact ⟨_, r.commits, torn, .inr ⟨head, frames, hparts, rfl⟩⟩

end Log

/-! ## Opening -/

namespace CommitLog

open Log Bytes

variable {d d' : Disk} {path : String} {file : Nat} {kept torn : ByteArray}
  {commits : List (UInt64 × Change)}

/-- Opening a file is a matter of its bytes. -/
theorem openAt_eq (hlinked : d.Linked path file) :
    openAt d path = match recover path (d.bytes file) with
      | .error e => (d, .error e)
      | .ok (bytes, replay) => (d.setContent file (.bytes bytes),
          .ok (opened path file replay.commits, replay)) := by
  cases hrecover : recover path (d.bytes file) with
  | error e => simp only [openAt, hlinked.makeParents, hlinked.open?, hrecover]
  | ok r => simp only [openAt, hlinked.makeParents, hlinked.open?, hrecover, opened]

theorem openAt_of_accepted (hlinked : d.Linked path file)
    (h : Accepted (d.bytes file) kept commits torn) :
    openAt d path = (d.setContent file (.bytes kept), .ok (opened path file commits,
      ⟨commits, Replay.lastOf 0 commits, kept.size, torn.size⟩)) := by
  rw [openAt_eq hlinked, recover_of_accepted path h]

/-- Opening a log decides every content of its file.  Exactly the empty file and the logs in their
parts are accepted.  Then all commits are found, the file is kept without an unfinished frame, and
opening it again finds the same and cuts off nothing.  What is refused is left as it is.  The frames
are read in no more steps than the file has room for. -/
theorem openAt_accepts (hlinked : d.Linked path file) :
    ((∃ d' log replay, openAt d path = (d', .ok (log, replay))) ↔
      ∃ kept commits torn, Accepted (d.bytes file) kept commits torn) ∧
    (∀ kept commits torn, Accepted (d.bytes file) kept commits torn →
      ∃ d', openAt d path = (d', .ok (⟨path, file, commits.length, false⟩,
          ⟨commits, Replay.lastOf 0 commits, kept.size, torn.size⟩)) ∧
        d'.content file = .bytes kept ∧
        openAt d' path = (d', .ok (⟨path, file, commits.length, false⟩,
          ⟨commits, Replay.lastOf 0 commits, kept.size, 0⟩))) ∧
    (∀ d' e, openAt d path = (d', .error e) → d' = d) ∧
    (headerSize ≤ (d.bytes file).size →
      headerSize + Scan.leastFrame * (Scan.run (d.bytes file) headerSize).frames.length ≤
        (d.bytes file).size) := by
  refine ⟨⟨?_, ?_⟩, ?_, ?_, Scan.length_run_le⟩
  · rintro ⟨d', log, replay, hopen⟩
    rw [openAt_eq hlinked] at hopen
    split at hopen
    · cases hopen
    · rename_i hrecover
      exact accepted_of_recover hrecover
  · rintro ⟨kept, commits, torn, haccepted⟩
    exact ⟨_, _, _, openAt_of_accepted hlinked haccepted⟩
  · intro kept commits torn haccepted
    have hcontent := Disk.content_setContent d file (.bytes kept)
    refine ⟨_, openAt_of_accepted hlinked haccepted, hcontent, ?_⟩
    -- the file that was kept is opened in the same way
    have hbytes : (d.setContent file (.bytes kept)).bytes file = kept := Disk.bytes_eq hcontent
    have hagain := haccepted.again
    rw [← hbytes] at hagain
    have hlinked' : (d.setContent file (.bytes kept)).Linked path file := hlinked.of_entries rfl
    have hopen := openAt_of_accepted hlinked' hagain
    rw [hbytes, Disk.setContent_setContent] at hopen
    exact hopen
  · intro d' e hopen
    rw [openAt_eq hlinked] at hopen
    split at hopen
    · cases hopen
      rfl
    · cases hopen

/-- Two commits, and two bytes of a third frame. -/
theorem openAt_accepts_torn :
    ∃ d d', d.Linked "store" 0 ∧ d.bytes 0 = twoUpdates ++ ofNat 2 0 ∧
      openAt d "store" = (d', .ok (⟨"store", 0, 2, false⟩,
        ⟨[(1, ⟨[("/a", "v")], []⟩), (2, ⟨[("/b", "w")], []⟩)], 2, 58, 2⟩)) ∧
      d'.content 0 = .bytes twoUpdates := by
  have hlinked : (Disk.empty.place ["store"] (.bytes (twoUpdates ++ ofNat 2 0))).1.Linked
      "store" 0 := Disk.Linked.place (Or.inl rfl) rfl (by decide) _
  have hascending : Ascending 0 [(1, ⟨[("/a", "v")], []⟩), (2, ⟨[("/b", "w")], []⟩)] :=
    .cons (by decide) (by decide) (.cons (by decide) (by decide) (.nil 2))
  have htorn : Unfinished (ofNat 2 0) := .inl (by decide)
  have hparts := parts_logBytes hascending htorn
  rcases (openAt_accepts hlinked).2.1 _ _ _ (.inr ⟨_, _, hparts, rfl⟩) with
    ⟨d', hopen, hcontent, -⟩
  have hkept : header ++ Scan.joined ([(1, ⟨[("/a", "v")], []⟩), (2, ⟨[("/b", "w")], []⟩)].map
      frameOf) = twoUpdates := rfl
  rw [hkept] at hopen hcontent
  rw [size_twoUpdates] at hopen
  exact ⟨_, d', hlinked, rfl, hopen, hcontent⟩

end CommitLog
end GuardedStore
