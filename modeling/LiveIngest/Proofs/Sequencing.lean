import LiveIngest.Segment.Sequencer

/-!
# What a sequencer can do

A sequencer serves requests one by one.  `Served` lists what a request can come to; most leave the
sequencer as it is, and only four move it: a session is opened or closed, an index is issued, an
index is committed.

1. **Over a whole run** the counter is the number of commits, and the commits answer 1, 2, 3, … without
   a gap and without a repeat (`Counted`).

2. **Within one session** there is little that can succeed: nothing, one index that is issued, or
   that index and its commit.  `Session.Course` is this list of three, and every request keeps it
   (`Served.standing`).  It ties the two numbers that a session works with, its counter and the index it
   issued, to what the client was told.

3. **Across sessions** only the counter is carried over, so an index that was issued and not committed
   is issued again.

`segments_numbered_in_order` puts these together for every run and every session in it.
-/

namespace LiveIngest.Segment

/-! ## Runs -/

/-- A request and the answer to it. -/
abbrev Exchange := Request × Answer

/-- Whether a request moved things on: an index was issued, or committed. -/
def Answer.isSuccess : Answer → Bool
  | .issued _ => true
  | .committed _ => true
  | _ => false

/-- What a commit moved the counter to. -/
def Answer.committed? : Answer → Option Nat
  | .committed next => some next
  | _ => none

namespace Sequencer

/-- The sequencer after a run of requests. -/
def after (q : Sequencer) (rs : List Request) : Sequencer := (q.serveAll rs).2

/-- The answers to a run of requests. -/
def answers (q : Sequencer) (rs : List Request) : List Answer := (q.serveAll rs).1

/-- What succeeded in a run of requests, in order. -/
def successes (q : Sequencer) (rs : List Request) : List Exchange :=
  (rs.zip (q.answers rs)).filter (·.2.isSuccess)

/-- These take a run apart, request by request and in two.  They are what inductions over runs go
by. -/
@[simp] theorem after_nil (q : Sequencer) : q.after [] = q := rfl

/-- The rest of a run starts where the first request has led. -/
theorem after_cons (q : Sequencer) (r : Request) (rs : List Request) :
    q.after (r :: rs) = (q.serve r).2.after rs := rfl

/-- The first answer is in front. -/
theorem answers_cons (q : Sequencer) (r : Request) (rs : List Request) :
    q.answers (r :: rs) = (q.serve r).1 :: (q.serve r).2.answers rs := rfl

/-- What succeeded first is in front, if it did. -/
theorem successes_cons (q : Sequencer) (r : Request) (rs : List Request) :
    q.successes (r :: rs) =
      [(r, (q.serve r).1)].filter (·.2.isSuccess) ++ (q.serve r).2.successes rs := by
  rw [successes, answers_cons, List.zip_cons_cons, ← List.singleton_append, List.filter_append]
  rfl

/-- One run after the other. -/
theorem after_append (q : Sequencer) (rs rs' : List Request) :
    q.after (rs ++ rs') = (q.after rs).after rs' := by
  induction rs generalizing q with
  | nil => rfl
  | cons r rs ih => exact ih (q.serve r).2

/-- The second run is answered from where the first has led. -/
theorem answers_append (q : Sequencer) (rs rs' : List Request) :
    q.answers (rs ++ rs') = q.answers rs ++ (q.after rs).answers rs' := by
  induction rs generalizing q with
  | nil => rfl
  | cons r rs ih =>
    rw [List.cons_append, answers_cons, answers_cons, after_cons, ih, List.cons_append]

end Sequencer

/-! ## One request -/

/-- A session may issue an index to a client that hints at `hint`, or at nothing. -/
def Agrees (hint : Option Kind) (index : Nat) : Prop :=
  ∀ kind, hint = some kind → kind = Kind.ofIndex index

/-- What a request can come to. -/
inductive Served (q : Sequencer) : Request → Answer → Sequencer → Prop
  | opened (h : q.session = none) :
      Served q .begin .done { q with session := some ⟨q.counter, none⟩ }
  | closed {s} (h : q.session = some s) : Served q .finish .done { q with session := none }
  | issued {hint k} (h : q.session = some ⟨k, none⟩) (hagree : Agrees hint k) :
      Served q (.next hint) (.issued (Slot.at q.stream k)) (q.holding ⟨k, some k⟩)
  | committed {k} (h : q.session = some ⟨k, some k⟩) :
      Served q (.commit k) (.committed (k + 1)) (q.holding ⟨k + 1, some k⟩)
  /-- The session has issued its index. -/
  | spent {hint k index} (h : q.session = some ⟨k, some index⟩) :
      Served q (.next hint) (.refused (.alreadyIssued index)) q
  /-- The client sends something else than what is due. -/
  | outOfOrder {k kind} (h : q.session = some ⟨k, none⟩) (hkind : kind ≠ Kind.ofIndex k) :
      Served q (.next (some kind)) (.refused (.outOfOrder (Kind.ofIndex k) k kind)) q
  | stale {k issued index} (h : q.session = some ⟨k, issued⟩)
      (hnot : ¬(issued = some index ∧ index = k)) :
      Served q (.commit index) (.refused (.staleCommit index k)) q
  | busy : Served q .isBusy (.busy q.session.isSome) q
  | current (h : q.session = none) : Served q .currentIndex (.current q.counter) q
  /-- No session is open where one must be, or one is where none may be. -/
  | misplaced {r} (h : q.session ≠ none → r = .begin ∨ r = .currentIndex) : Served q r .misplaced q

/-- The list is complete: whatever a request comes to is one of these.  From here on proofs go by
cases of `Served`. -/
theorem Sequencer.serve_served (q : Sequencer) (r : Request) :
    Served q r (q.serve r).1 (q.serve r).2 := by
  obtain ⟨stream, counter, session⟩ := q
  cases session with
  | none =>
    cases r with
    | begin => exact .opened rfl
    | isBusy => exact .busy
    | currentIndex => exact .current rfl
    | next hint => exact .misplaced (by simp)
    | commit index => exact .misplaced (by simp)
    | finish => exact .misplaced (by simp)
  | some s =>
    obtain ⟨k, issued⟩ := s
    cases r with
    | begin => exact .misplaced (by simp)
    | isBusy => exact .busy
    | currentIndex => exact .misplaced (by simp)
    | finish => exact .closed rfl
    | next hint =>
      cases issued with
      | some index => exact .spent rfl
      | none =>
        cases hint with
        | none => exact .issued rfl (by simp [Agrees])
        | some kind =>
          by_cases hkind : kind = Kind.ofIndex k
          · have hissue : Session.issue ⟨k, none⟩ stream (some kind) =
                .ok (Slot.at stream k, ⟨k, some k⟩) := if_pos hkind
            simp only [Sequencer.serve, hissue]
            exact .issued rfl (by simp [Agrees, hkind])
          · have hissue : Session.issue ⟨k, none⟩ stream (some kind) =
                .error (.outOfOrder (Kind.ofIndex k) k kind) := if_neg hkind
            simp only [Sequencer.serve, hissue]
            exact .outOfOrder rfl hkind
    | commit index =>
      by_cases hdue : issued = some index ∧ index = k
      · have hcommit : Session.commit ⟨k, issued⟩ index = .ok ⟨k + 1, issued⟩ := if_pos hdue
        simp only [Sequencer.serve, hcommit]
        obtain ⟨rfl, rfl⟩ := hdue
        exact .committed rfl
      · have hcommit : Session.commit ⟨k, issued⟩ index = .error (.staleCommit index k) :=
          if_neg hdue
        simp only [Sequencer.serve, hcommit]
        exact .stale rfl hdue

/-- What is refused leaves everything as it is. -/
theorem Served.of_refused {q q' : Sequencer} {r : Request} {fault : SequenceFault}
    (h : Served q r (.refused fault) q') : q' = q := by
  cases h <;> rfl

/-- A sequencer works for one stream. -/
theorem Served.stream_eq {q q' : Sequencer} {r : Request} {a : Answer} (h : Served q r a q') :
    q'.stream = q.stream := by
  cases h <;> rfl

/-- So it does over a whole run. -/
theorem Sequencer.stream_after (q : Sequencer) (rs : List Request) :
    (q.after rs).stream = q.stream := by
  induction rs generalizing q with
  | nil => rfl
  | cons r rs ih => rw [after_cons, ih, (q.serve_served r).stream_eq]

/-! ## Counting over a run -/

/-- The commits so far have counted the segments one by one, and a session that is open knows the
counter. -/
structure Counted (xs : List Answer) (q : Sequencer) : Prop where
  commits : xs.filterMap Answer.committed? = List.range' 1 q.counter
  session : ∀ s, q.session = some s → s.counter = q.counter

section

variable {xs : List Answer} {q q' : Sequencer} {r : Request} {a : Answer}

/-- One request keeps the count.  The counter moves with a commit only, and by one. -/
theorem Served.counted (h : Served q r a q') (hq : Counted xs q) : Counted (xs ++ [a]) q' := by
  -- for all requests but a commit
  have hkeep : a.committed? = none →
      (xs ++ [a]).filterMap Answer.committed? = List.range' 1 q.counter := by
    intro ha
    rw [List.filterMap_append, hq.commits]
    simp [ha]
  cases h with
  | opened hs => exact ⟨hkeep rfl, by simp⟩
  | closed hs => exact ⟨hkeep rfl, by simp⟩
  | issued hs hagree =>
    rename_i k
    have hk : k = q.counter := hq.session _ hs
    subst hk
    exact ⟨hkeep rfl, by simp [Sequencer.holding]⟩
  | committed hs =>
    rename_i k
    have hk : k = q.counter := hq.session _ hs
    subst hk
    refine ⟨?_, by simp [Sequencer.holding]⟩
    rw [List.filterMap_append, hq.commits, Sequencer.holding, List.range'_concat]
    simp [Answer.committed?, Nat.add_comm]
  | spent | outOfOrder | stale | busy | current | misplaced => exact ⟨hkeep rfl, hq.session⟩

/-- A run keeps it. -/
theorem Counted.serveAll (hq : Counted xs q) (rs : List Request) :
    Counted (xs ++ q.answers rs) (q.after rs) := by
  induction rs generalizing q xs with
  | nil =>
    rw [show q.answers [] = [] from rfl, List.append_nil]
    exact hq
  | cons r rs ih =>
    have hnext := ih ((q.serve_served r).counted hq)
    rw [List.append_assoc] at hnext
    exact hnext

/-- At first there are no commits, and no session. -/
theorem counted_start (stream : String) (rs : List Request) :
    Counted ((Sequencer.start stream).answers rs) ((Sequencer.start stream).after rs) := by
  have hnone : Counted [] (Sequencer.start stream) := ⟨rfl, by simp [Sequencer.start]⟩
  exact hnone.serveAll rs

end

/-! ## One session -/

/-- What can have succeeded in a session that was opened on the index `k`, and where the session stands
then: nothing; an index, which is the one the session was opened on; its commit. -/
inductive Session.Course (stream : String) (k : Nat) : List Exchange → Session → Prop
  | opened : Course stream k [] ⟨k, none⟩
  | issued (hint : Option Kind) :
      Course stream k [(.next hint, .issued (Slot.at stream k))] ⟨k, some k⟩
  | committed (hint : Option Kind) :
      Course stream k [(.next hint, .issued (Slot.at stream k)), (.commit k, .committed (k + 1))]
        ⟨k + 1, some k⟩

/-- A session is open, and what succeeded in it is in keeping with where it stands. -/
structure Standing (stream : String) (k : Nat) (xs : List Exchange) (q : Sequencer) (s : Session) :
    Prop where
  stream_eq : q.stream = stream
  session : q.session = some s
  counter : q.counter = s.counter
  course : Session.Course stream k xs s

section

variable {stream : String} {k : Nat} {xs : List Exchange} {q q' : Sequencer} {s : Session}
  {r : Request} {a : Answer}

/-- A session goes on until it is closed.  A success is possible only where the course so far allows
it, which is why the course has just three cases. -/
theorem Served.standing (h : Served q r a q') (hq : Standing stream k xs q s) (hr : r ≠ .finish) :
    ∃ s', Standing stream k (xs ++ [(r, a)].filter (·.2.isSuccess)) q' s' := by
  obtain ⟨rfl, hs, hcounter, hcourse⟩ := hq
  have hstay : a.isSuccess = false → q' = q →
      ∃ s', Standing q.stream k (xs ++ [(r, a)].filter (·.2.isSuccess)) q' s' := by
    rintro ha rfl
    refine ⟨s, rfl, hs, hcounter, ?_⟩
    simpa [ha] using hcourse
  cases h with
  | opened hnone => rw [hs] at hnone; exact absurd hnone (by simp)
  | closed => exact absurd rfl hr
  | issued hopen hagree =>
    rw [hs, Option.some.injEq] at hopen
    subst hopen
    cases hcourse
    exact ⟨_, rfl, rfl, rfl, .issued _⟩
  | committed hopen =>
    rw [hs, Option.some.injEq] at hopen
    subst hopen
    cases hcourse
    exact ⟨_, rfl, rfl, rfl, .committed _⟩
  | spent | outOfOrder | stale | busy | current | misplaced => exact hstay rfl rfl

/-- So it stands on its course after every run in which it is not closed. -/
theorem Standing.serveAll (hq : Standing stream k xs q s) {rs : List Request}
    (hrs : .finish ∉ rs) : ∃ s', Standing stream k (xs ++ q.successes rs) (q.after rs) s' := by
  -- on the run, with the course so far general
  induction rs generalizing q xs s with
  | nil => exact ⟨s, by simpa [Sequencer.successes] using hq⟩
  | cons r rs ih =>
    rw [List.mem_cons, not_or] at hrs
    obtain ⟨s', hs'⟩ := (q.serve_served r).standing hq fun e => hrs.1 e.symm
    obtain ⟨s'', hs''⟩ := ih hs' hrs.2
    rw [List.append_assoc, ← Sequencer.successes_cons] at hs''
    exact ⟨s'', hs''⟩

/-- What asking for an index comes to. -/
theorem Served.of_next {hint : Option Kind} (h : Served q (.next hint) a q')
    (hs : q.session = some s) :
    s.issued = none ∧ Agrees hint s.counter ∧ a = .issued (Slot.at q.stream s.counter) ∨
      (s.issued ≠ none ∨ ¬Agrees hint s.counter) ∧ ∃ fault, a = .refused fault := by
  cases h with
  | issued hopen hagree =>
    rw [hs, Option.some.injEq] at hopen
    subst hopen
    exact .inl ⟨rfl, hagree, rfl⟩
  | spent hopen =>
    rw [hs, Option.some.injEq] at hopen
    subst hopen
    exact .inr ⟨.inl (by simp), _, rfl⟩
  | outOfOrder hopen hkind =>
    rw [hs, Option.some.injEq] at hopen
    subst hopen
    exact .inr ⟨.inr fun hagree => hkind (hagree _ rfl), _, rfl⟩
  | misplaced hr =>
    rcases hr (by simp [hs]) with hr | hr
    · exact absurd hr (by simp)
    · exact absurd hr (by simp)

/-- What asking for a commit comes to. -/
theorem Served.of_commit {index : Nat} (h : Served q (.commit index) a q')
    (hs : q.session = some s) :
    s = ⟨index, some index⟩ ∧ a = .committed (index + 1) ∨
      s ≠ ⟨index, some index⟩ ∧ ∃ fault, a = .refused fault := by
  cases h with
  | committed hopen =>
    rw [hs, Option.some.injEq] at hopen
    exact .inl ⟨hopen, rfl⟩
  | stale hopen hnot =>
    rw [hs, Option.some.injEq] at hopen
    subst hopen
    refine .inr ⟨fun he => hnot ?_, _, rfl⟩
    rw [Session.mk.injEq] at he
    exact ⟨he.2, he.1.symm⟩
  | misplaced hr =>
    rcases hr (by simp [hs]) with hr | hr
    · exact absurd hr (by simp)
    · exact absurd hr (by simp)

/-- Nothing happens between two sessions. -/
theorem Served.of_closed (h : Served q r a q') (hs : q.session = none) (hr : r ≠ .begin) :
    q' = q := by
  cases h with
  | opened => exact absurd rfl hr
  | closed hopen | issued hopen | committed hopen => rw [hs] at hopen; exact absurd hopen (by simp)
  | spent | outOfOrder | stale | busy | current | misplaced => rfl

/-- The same of a run: without `begin` there is no session, whatever else is asked. -/
theorem after_of_closed (hs : q.session = none) {rs : List Request} (hrs : .begin ∉ rs) :
    q.after rs = q := by
  induction rs with
  | nil => rfl
  | cons r rs ih =>
    rw [List.mem_cons, not_or] at hrs
    rw [Sequencer.after_cons, (q.serve_served r).of_closed hs fun e => hrs.1 e.symm]
    exact ih hrs.2

/-- How a session that was opened on the index `k` goes on, with what succeeded in it so far. -/
structure Session.Law (stream : String) (k : Nat) (xs : List Exchange) (q : Sequencer) : Prop where
  /-- At most one index was issued and at most one commit succeeded, of that index. -/
  course : ∃ s, q.session = some s ∧ q.counter = s.counter ∧ Session.Course stream k xs s
  /-- Whoever has an index, or sends something else than what is due, is refused. -/
  next_refused : ∀ hint, (∃ x ∈ xs, ∃ slot, x.2 = .issued slot) ∨ ¬Agrees hint q.counter →
    ∃ fault, (q.serve (.next hint)).1 = .refused fault
  /-- Everybody else is given the current index. -/
  next_issued : ∀ hint, (∀ x ∈ xs, ∀ slot, x.2 ≠ .issued slot) → Agrees hint q.counter →
    (q.serve (.next hint)).1 = .issued (Slot.at stream q.counter)
  /-- The index that was issued in this session is committed, once, -/
  commit_issued : ∀ index hint, xs = [(.next hint, .issued (Slot.at stream index))] →
    (q.serve (.commit index)).1 = .committed (index + 1)
  /-- and no other index is. -/
  commit_refused : ∀ index, (∀ hint, xs ≠ [(.next hint, .issued (Slot.at stream index))]) →
    ∃ fault, (q.serve (.commit index)).1 = .refused fault
  /-- If the session is closed without a commit, the next one is on the same index. -/
  reissued : (∀ x ∈ xs, x.2.committed? = none) → ∀ idle, Request.begin ∉ idle →
    ∀ hint, Agrees hint k →
      ((q.after (.finish :: (idle ++ [.begin]))).serve (.next hint)).1 = .issued (Slot.at stream k)

/-- Where a session stands can be told from what succeeded in it. -/
theorem Session.Course.issued_iff (h : Session.Course stream k xs s) :
    s.issued ≠ none ↔ ∃ x ∈ xs, ∃ slot, x.2 = .issued slot := by
  cases h <;> simp

/-- It can commit just the index that is the one success so far. -/
theorem Session.Course.eq_iff (h : Session.Course stream k xs s) (index : Nat) :
    s = ⟨index, some index⟩ ↔ ∃ hint, xs = [(.next hint, .issued (Slot.at stream index))] := by
  cases h with
  | opened => simp
  | issued hint =>
    constructor
    · rintro ⟨⟩
      exact ⟨hint, rfl⟩
    · rintro ⟨hint', he⟩
      simp only [List.cons.injEq, Prod.mk.injEq, Answer.issued.injEq, Slot.at, Slot.mk.injEq] at he
      rw [he.1.2.1]
  | committed hint =>
    simp
    omega

/-- A session that has just been opened. -/
theorem Standing.begin (hs : q.session = none) :
    Standing q.stream q.counter [] (q.serve .begin).2 ⟨q.counter, none⟩ := by
  obtain ⟨stream, counter, session⟩ := q
  subst hs
  exact ⟨rfl, rfl, rfl, .opened⟩

/-- The next session, whatever is asked in between. -/
theorem Standing.reopened (h : Standing stream k xs q s) {idle : List Request}
    (hidle : .begin ∉ idle) :
    Standing stream q.counter [] (q.after (.finish :: (idle ++ [.begin]))) ⟨q.counter, none⟩ := by
  have hclosed : (q.serve .finish).2 = { q with session := none } := by
    simp [Sequencer.serve, h.session]
  rw [Sequencer.after_cons, hclosed, Sequencer.after_append, after_of_closed rfl hidle,
    Sequencer.after_cons, Sequencer.after_nil, ← h.stream_eq]
  exact Standing.begin (q := { q with session := none }) rfl

/-- Wherever a session stands, it obeys the law: every clause is read off the course. -/
theorem Standing.law (h : Standing stream k xs q s) : Session.Law stream k xs q := by
  have hnext : ∀ hint, _ := fun hint => (q.serve_served (.next hint)).of_next h.session
  have hcommit : ∀ index, _ := fun index => (q.serve_served (.commit index)).of_commit h.session
  rw [← h.counter, h.stream_eq] at hnext
  constructor
  case course => exact ⟨s, h.session, h.counter, h.course⟩
  case next_refused =>
    intro hint hwhy
    rw [← h.course.issued_iff] at hwhy
    rcases hnext hint with ⟨hnone, hagree, -⟩ | ⟨-, hrefused⟩
    · rcases hwhy with hissued | hnot
      · exact absurd hnone hissued
      · exact absurd hagree hnot
    · exact hrefused
  case next_issued =>
    intro hint hnone hagree
    rcases hnext hint with ⟨-, -, hanswer⟩ | ⟨hissued | hnot, -⟩
    · exact hanswer
    · obtain ⟨x, hx, slot, hslot⟩ := h.course.issued_iff.mp hissued
      exact absurd hslot (hnone x hx slot)
    · exact absurd hagree hnot
  case commit_issued =>
    intro index hint hxs
    rcases hcommit index with ⟨-, hanswer⟩ | ⟨hne, -⟩
    · exact hanswer
    · exact absurd ((h.course.eq_iff index).mpr ⟨hint, hxs⟩) hne
  case commit_refused =>
    intro index hxs
    rcases hcommit index with ⟨hs, -⟩ | ⟨-, hrefused⟩
    · obtain ⟨hint, he⟩ := (h.course.eq_iff index).mp hs
      exact absurd he (hxs hint)
    · exact hrefused
  -- what was not committed has not moved the counter
  case reissued =>
    intro hxs idle hidle hint hagree
    have hcounter : q.counter = k := by
      rw [h.counter]
      cases h.course with
      | opened | issued => rfl
      | committed hint => simp [Answer.committed?] at hxs
    have hopened := h.reopened hidle
    rw [hcounter] at hopened
    rcases (Sequencer.serve_served _ (.next hint)).of_next hopened.session with
      ⟨-, -, hanswer⟩ | ⟨hissued | hnot, -⟩
    · rw [hanswer, hopened.stream_eq]
    · exact absurd rfl hissued
    · exact absurd hagree hnot

end

/-! ## All sessions of all runs -/

/-- What holds of a sequencer at every point `rs` of every run.  Its counter is the number of commits,
and they answered 1, 2, 3, …; what is refused changes nothing; and if a session is open, which was
opened behind `before` and has served `during`, it obeys the law of sessions. -/
theorem segments_numbered_in_order (stream : String) (rs : List Request) :
    let start := Sequencer.start stream
    let q := start.after rs
    q.counter = ((start.answers rs).filterMap Answer.committed?).length ∧
    (start.answers rs).filterMap Answer.committed? = List.range' 1 q.counter ∧
    (∀ r fault, (q.serve r).1 = .refused fault → (q.serve r).2 = q) ∧
    ∀ before during, rs = before ++ .begin :: during →
      ((start.after before).serve .begin).1 = .done → .finish ∉ during →
      Session.Law stream (start.after before).counter
        (((start.after before).serve .begin).2.successes during) q := by
  intro start q
  have hcounted := counted_start stream rs
  refine ⟨?_, hcounted.commits, fun r fault hr => ?_, fun before during hrs hbegin hduring => ?_⟩
  · rw [hcounted.commits, List.length_range']
  · exact (hr ▸ q.serve_served r).of_refused
  · have hopen : (start.after before).session = none := by
      cases hs : (start.after before).session with
      | none => rfl
      | some s => simp [Sequencer.serve, hs] at hbegin
    obtain ⟨s, hs⟩ := (Standing.begin hopen).serveAll hduring
    have hq : q = ((start.after before).serve .begin).2.after during := by
      show start.after rs = _
      rw [hrs, Sequencer.after_append, Sequencer.after_cons]
    rw [Sequencer.stream_after, ← hq, List.nil_append] at hs
    exact hs.law

/-- The header was announced, sent and refused, and its client left without a commit; the next session
gets its index. -/
theorem segments_numbered_in_order_reissued :
    let start := Sequencer.start "live"
    let before : List Request :=
      [.begin, .next (some .header), .next (some .manifest), .commit 3, .commit 0, .next none, .finish,
        .begin, .next none, .finish, .isBusy]
    let during : List Request := [.commit 1, .next (some .header), .commit 1]
    let xs : List Exchange :=
      [(.next (some .header), .issued (Slot.at "live" 1)), (.commit 1, .committed 2)]
    ((start.after before).serve .begin).1 = .done ∧ .finish ∉ during ∧
      (start.answers (before ++ .begin :: during)).filterMap Answer.committed? = [1, 2] ∧
      (start.after (before ++ .begin :: during)).counter = 2 ∧
      Session.Law "live" 1 xs (start.after (before ++ .begin :: during)) := by
  intro start before during xs
  have hbegin : ((start.after before).serve .begin).1 = .done := by decide +kernel
  have hduring : Request.finish ∉ during := by decide
  have hxs : ((start.after before).serve .begin).2.successes during = xs := by decide +kernel
  have hk : (start.after before).counter = 1 := by decide +kernel
  obtain ⟨-, hcommits, -, hlaw⟩ := segments_numbered_in_order "live" (before ++ .begin :: during)
  have hcounter : (start.after (before ++ .begin :: during)).counter = 2 := by decide +kernel
  have hsession := hlaw before during rfl hbegin hduring
  rw [hxs, hk] at hsession
  exact ⟨hbegin, hduring, by rw [hcommits, hcounter]; rfl, hcounter, hsession⟩

end LiveIngest.Segment
