import HttpCodec.Chunk
import HttpCodec.Proofs.Line
import HttpCodec.Proofs.Result

set_option autoImplicit false

/-! # Chunks in data that goes on

As a line does, a chunk that was read off the front of the data stays the same when more data
arrives, and so does an error in its framing (`take_append`, `takeSize_append`,
`hasEnd_append`). What a size line says does not depend on what follows it either, which is what
ties chunks that are read as a whole to chunks that are read in pieces (`take_of_isSizeLine`). A
chunk that is taken is a size line and what it calls for (`take_cases`).
-/

namespace HttpCodec.Chunk

theorem sizeOfScan_append {limit : Int} (more : Octets)
    (found : Except Line.Error (Option (Octets × Octets))) :
    sizeOfScan limit (appendRest more found) = appendRest more (sizeOfScan limit found) := by
  rcases found with cause | _ | ⟨line, rest⟩
  · cases cause <;> rfl
  · rfl
  · show (size line).map _ = appendRest more ((size line).map _)
    cases size line <;> rfl

/-- The size of a chunk needs more data only if its line does. -/
theorem scan_ne_of_takeSize_ne {data : Octets} {limit : Int}
    (h : takeSize data limit ≠ .ok none) : Line.scan data limit ≠ .ok none := by
  intro hscan
  exact h (by rw [takeSize, hscan]; rfl)

/-- A verdict on a size line is final. -/
theorem takeSize_append {data : Octets} {limit : Int} (more : Octets)
    (h : takeSize data limit ≠ .ok none) :
    takeSize (data ++ more) limit = appendRest more (takeSize data limit) := by
  rw [takeSize, Line.scan_append more (scan_ne_of_takeSize_ne h), sizeOfScan_append, takeSize]

/-- A verdict on the end of a chunk is final. -/
theorem hasEnd_append {data : Octets} (more : Octets) (h : hasEnd data ≠ .ok false) :
    hasEnd (data ++ more) = hasEnd data := by
  match data with
  | [] => exact absurd rfl h
  | [c] =>
      have hc : c ≠ CR := fun hc => h (by simp [hasEnd, hc])
      cases more <;> simp [hasEnd, hc]
  | c :: d :: rest => rfl

theorem hasEnd_lineEnd (rest : Octets) : hasEnd (lineEnd ++ rest) = .ok true := rfl

/-- Data that holds the end of a chunk starts with a line end. -/
theorem eq_of_hasEnd {data : Octets} (h : hasEnd data = .ok true) : ∃ rest, data = lineEnd ++ rest := by
  match data with
  | [] => cases h
  | [c] =>
      simp only [hasEnd] at h
      split at h <;> cases h
  | c :: d :: rest =>
      simp only [hasEnd] at h
      split at h
      next hend =>
        obtain ⟨rfl, rfl⟩ := hend
        exact ⟨rest, rfl⟩
      · cases h

/-- Data that holds the end of a chunk holds its octets. -/
theorem two_le_length_of_hasEnd {data : Octets} (h : hasEnd data = .ok true) :
    2 ≤ data.length := by
  obtain ⟨rest, rfl⟩ := eq_of_hasEnd h
  simp [lineEnd]

/-- No chunk is taken where there is nothing. -/
theorem take_nil {limit : Int} (hlimit : 0 ≤ limit) : take [] limit = .ok none := by
  simp only [take, takeSize, Line.scan_nil hlimit, sizeOfScan]

/-- **A verdict on a chunk is final.** -/
theorem take_append {data : Octets} {limit : Int} (more : Octets)
    (h : take data limit ≠ .ok none) :
    take (data ++ more) limit = appendRest more (take data limit) := by
  have hsize : takeSize data limit ≠ .ok none := by
    intro hnone
    exact h (by simp only [take, hnone])
  have hmore := takeSize_append more hsize
  rcases hfound : takeSize data limit with cause | _ | ⟨n, rest⟩
  · simp only [take, hmore, hfound, appendRest_error]
  · exact absurd hfound hsize
  · simp only [take, hmore, hfound, appendRest_some] at h ⊢
    by_cases hzero : n = 0
    · simp [hzero]
    · simp only [if_neg hzero] at h ⊢
      have hend : hasEnd (rest.drop n) ≠ .ok false := by
        intro hfalse
        exact h (by simp only [hfalse])
      -- a verdict on the end looks at an octet after the data, so all of the data is there
      have hlen : n ≤ rest.length := by
        by_contra hlt
        exact hend (by rw [List.drop_eq_nil_of_le (by omega)]; rfl)
      rw [List.drop_append_of_le_length hlen, hasEnd_append more hend]
      rcases htrue : hasEnd (rest.drop n) with cause | _ | _
      · rfl
      · rfl
      · have htwo := two_le_length_of_hasEnd htrue
        rw [List.length_drop] at htwo
        simp only [appendRest_some]
        rw [List.take_append_of_le_length hlen, List.drop_append_of_le_length (by omega)]

/-! ## Data that is not enough -/

theorem takeSize_eq_none_iff {data : Octets} {limit : Int} :
    takeSize data limit = .ok none ↔ Line.scan data limit = .ok none := by
  unfold takeSize
  rcases Line.scan data limit with cause | _ | ⟨line, after⟩
  · cases cause <;> simp [sizeOfScan]
  · simp [sizeOfScan]
  · simp [sizeOfScan, map_eq_ok_iff]

/-- Of the end of a chunk at most one octet is missing it. -/
theorem length_le_of_hasEnd {data : Octets} (h : hasEnd data = .ok false) : data.length ≤ 1 := by
  match data with
  | [] => exact Nat.zero_le 1
  | [c] => exact Nat.le_refl 1
  | c :: d :: rest =>
      simp only [hasEnd] at h
      split at h <;> cases h

/-! ## Limits -/

/-- A higher limit changes nothing but that a size line is too long. -/
theorem takeSize_of_le {limit limit' : Int} (hle : limit ≤ limit') (data : Octets) :
    takeSize data limit' = takeSize data limit ∨
      takeSize data limit = .error (.sizeLineTooLong limit) := by
  unfold takeSize
  rcases hscan : Line.scan data limit with (_ | _ | _) | (_ | found)
  · exact .inr rfl
  all_goals
    rw [(Line.scan_of_le hle data).resolve_right (by simp [hscan]), hscan]
    exact .inl rfl

theorem take_of_le {limit limit' : Int} (hle : limit ≤ limit') (data : Octets) :
    take data limit' = take data limit ∨ take data limit = .error (.sizeLineTooLong limit) := by
  rcases takeSize_of_le hle data with hsame | hlong
  · exact .inl (by simp only [take, hsame])
  · exact .inr (by simp only [take, hlong])

/-! ## Size lines -/

/-- Octets that are a size line with its end, for a chunk of `n` octets. -/
def IsSizeLine (front : Octets) (limit : Int) (n : Nat) : Prop :=
  ∀ rest, takeSize (front ++ rest) limit = .ok (some (n, rest))

theorem takeSize_eq_some_iff {data rest : Octets} {limit : Int} {n : Nat} :
    takeSize data limit = .ok (some (n, rest)) ↔
      ∃ line, Line.scan data limit = .ok (some (line, rest)) ∧ size line = .ok n := by
  unfold takeSize
  rcases Line.scan data limit with cause | _ | ⟨line, after⟩
  · cases cause <;> simp [sizeOfScan]
  · simp [sizeOfScan]
  · simp only [sizeOfScan, map_eq_ok_iff, Option.some.injEq, Prod.mk.injEq, Except.ok.injEq]
    constructor
    · rintro ⟨m, hsize, rfl, rfl⟩
      exact ⟨line, ⟨rfl, rfl⟩, hsize⟩
    · rintro ⟨line, ⟨rfl, rfl⟩, hsize⟩
      exact ⟨n, hsize, rfl, rfl⟩

/-- **More data is needed** for what may still be a size line, or is one with too little of the
chunk after it. -/
theorem length_le_of_take {data : Octets} {limit : Int} (h : take data limit = .ok none) :
    data.length ≤ limit + 1 ∨
      ∃ n rest, 0 < n ∧ takeSize data limit = .ok (some (n, rest)) ∧
        data.length ≤ limit + 2 + n + 1 := by
  rcases hsize : takeSize data limit with cause | _ | ⟨n, rest⟩
  · simp only [take, hsize] at h
    cases h
  · exact .inl (Line.scan_eq_none_iff.mp (takeSize_eq_none_iff.mp hsize)).2
  · right
    simp only [take, hsize] at h
    split_ifs at h with hzero
    · cases h
    · have hend : hasEnd (rest.drop n) = .ok false := by
        rcases hend : hasEnd (rest.drop n) with cause | _ | _
        · simp only [hend] at h
          cases h
        · rfl
        · simp only [hend] at h
          cases h
      obtain ⟨line, hscan, -⟩ := takeSize_eq_some_iff.mp hsize
      obtain ⟨rfl, -, -, hlen⟩ := Line.data_eq_of_scan hscan
      have hmissing := length_le_of_hasEnd hend
      rw [List.length_drop] at hmissing
      refine ⟨n, rest, Nat.pos_of_ne_zero hzero, rfl, ?_⟩
      simp only [List.length_append, lineEnd, List.length_cons, List.length_nil]
      omega

/-- A line that gives a size is a size line whatever follows it. -/
theorem isSizeLine_of_size {line : Octets} {limit : Int} {n : Nat} (hCR : CR ∉ line)
    (hLF : LF ∉ line) (hlen : line.length ≤ limit) (hsize : size line = .ok n) :
    IsSizeLine (line ++ lineEnd) limit n := fun rest =>
  takeSize_eq_some_iff.mpr ⟨line, Line.scan_line rest hCR hLF hlen, hsize⟩

/-- A size line is a line that gives the size. -/
theorem IsSizeLine.exists_line {front : Octets} {limit : Int} {n : Nat}
    (h : IsSizeLine front limit n) :
    ∃ line, front = line ++ lineEnd ∧ CR ∉ line ∧ LF ∉ line ∧ line.length ≤ limit ∧
      size line = .ok n := by
  have hfront := h []
  rw [List.append_nil] at hfront
  obtain ⟨line, hscan, hsize⟩ := takeSize_eq_some_iff.mp hfront
  obtain ⟨hline, hCR, hLF, hlen⟩ := Line.data_eq_of_scan hscan
  rw [List.append_nil] at hline
  exact ⟨line, hline, hCR, hLF, hlen, hsize⟩

/-- A size that was read was read off a size line. -/
theorem isSizeLine_of_takeSize {data rest : Octets} {limit : Int} {n : Nat}
    (h : takeSize data limit = .ok (some (n, rest))) :
    ∃ front, data = front ++ rest ∧ IsSizeLine front limit n := by
  obtain ⟨line, hscan, hsize⟩ := takeSize_eq_some_iff.mp h
  obtain ⟨hdata, hCR, hLF, hlen⟩ := Line.data_eq_of_scan hscan
  exact ⟨line ++ lineEnd, hdata, isSizeLine_of_size hCR hLF hlen hsize⟩

/-- After the size line of a chunk that is not the last, its end decides. -/
theorem take_of_isSizeLine {front : Octets} {limit : Int} {n : Nat}
    (hfront : IsSizeLine front limit n) (hn : n ≠ 0) (rest : Octets) :
    take (front ++ rest) limit = (hasEnd (rest.drop n)).map fun found =>
      if found then some (rest.take n, rest.drop (n + 2)) else none := by
  unfold take
  rw [hfront rest]
  simp only [if_neg hn]
  rcases hasEnd (rest.drop n) with cause | _ | _ <;> rfl

theorem take_of_isSizeLine_zero {front : Octets} {limit : Int} (hfront : IsSizeLine front limit 0)
    (rest : Octets) : take (front ++ rest) limit = .ok (some ([], rest)) := by
  unfold take
  rw [hfront rest]
  rfl

/-- A size line, the data of that size and a line end are taken, whatever follows. -/
theorem take_of_payload {line payload : Octets} {limit : Int}
    (hline : IsSizeLine line limit payload.length) (hne : payload ≠ []) (rest : Octets) :
    take (line ++ (payload ++ (lineEnd ++ rest))) limit = .ok (some (payload, rest)) := by
  have hzero : payload.length ≠ 0 := fun h => hne (List.length_eq_zero_iff.mp h)
  have hdrop : (payload ++ (lineEnd ++ rest)).drop (payload.length + 2) = rest := by
    rw [← List.drop_drop, List.drop_left]
    rfl
  rw [take_of_isSizeLine hline hzero, List.drop_left, hasEnd_lineEnd, hdrop, List.take_left]
  rfl

/-- What is taken after a size line is the data of that size, with a line end behind it. -/
theorem eq_of_take_of_isSizeLine {line after payload rest : Octets} {limit : Int} {n : Nat}
    (hline : IsSizeLine line limit n) (hn : n ≠ 0)
    (h : take (line ++ after) limit = .ok (some (payload, rest))) :
    payload.length = n ∧ after = payload ++ (lineEnd ++ rest) := by
  rw [take_of_isSizeLine hline hn] at h
  obtain ⟨found, hend, hfound⟩ := map_eq_ok_iff.mp h
  cases found with
  | false => cases hfound
  | true =>
      obtain ⟨tail, htail⟩ := eq_of_hasEnd hend
      cases hfound
      have hrest : after.drop (n + 2) = tail := by
        rw [← List.drop_drop, htail]
        rfl
      refine ⟨?_, by rw [hrest, ← htail, List.take_append_drop]⟩
      have hlen := congrArg List.length htail
      simp only [List.length_drop, List.length_append, lineEnd, List.length_cons] at hlen
      rw [List.length_take]
      omega

/-- **What is taken off the front of the data** is the last chunk, which is its size line, or a size
line with the data of that size and a line end. -/
theorem take_cases {data payload rest : Octets} {limit : Int}
    (h : take data limit = .ok (some (payload, rest))) :
    ∃ line, IsSizeLine line limit payload.length ∧
      (payload = [] ∧ data = line ++ rest ∨
        payload ≠ [] ∧ data = line ++ (payload ++ (lineEnd ++ rest))) := by
  rcases hsize : takeSize data limit with cause | _ | ⟨n, after⟩
  · simp only [take, hsize] at h
    cases h
  · simp only [take, hsize] at h
    cases h
  · obtain ⟨line, rfl, hline⟩ := isSizeLine_of_takeSize hsize
    by_cases hn : n = 0
    · subst hn
      rw [take_of_isSizeLine_zero hline] at h
      cases h
      exact ⟨line, hline, .inl ⟨rfl, rfl⟩⟩
    · obtain ⟨rfl, rfl⟩ := eq_of_take_of_isSizeLine hline hn h
      exact ⟨line, hline, .inr ⟨fun hnil => hn (by rw [hnil]; rfl), rfl⟩⟩

/-- **A chunk that is taken is at the front of the data**, and is taken whatever follows it. -/
theorem exists_front_of_take {data payload rest : Octets} {limit : Int}
    (h : take data limit = .ok (some (payload, rest))) :
    ∃ front, data = front ++ rest ∧
      ∀ more, take (front ++ more) limit = .ok (some (payload, more)) := by
  obtain ⟨line, hline, ⟨rfl, rfl⟩ | ⟨hne, rfl⟩⟩ := take_cases h
  · exact ⟨line, rfl, take_of_isSizeLine_zero hline⟩
  · refine ⟨line ++ (payload ++ lineEnd), by simp only [List.append_assoc], fun more => ?_⟩
    rw [List.append_assoc, List.append_assoc]
    exact take_of_payload hline hne more

end HttpCodec.Chunk
