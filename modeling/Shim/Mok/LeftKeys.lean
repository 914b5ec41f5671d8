import Shim.Mok.DeleteKeys

/-!
# The keys that a deletion leaves

The keys that should be left after a deletion are those that the request does not name. But a node has
only the first certificate of an X.509 list; a hash that is there more than once may be missed, and
another one deleted; and if nothing is left, the status of the deletion is dropped.

Main result: `deleteKeys_exact`, which says when exactly the other keys are left.
-/

namespace Shim.Mok

open Lib Verify List Sbat
open Sbat (Variable)

/-! ## The keys that should be left -/

/-- The old keys that are not named. -/
def unnamedKeys (old request : List SignatureList) : List (Guid × List UInt8) :=
  (keysOf old).filter fun key => key ∉ keysOf request

/-- The certificate is the first of an X.509 list. -/
def FirstIn (ls : List SignatureList) (cert : List UInt8) : Prop :=
  ∃ l ∈ ls, l.type = certTypeX509Guid ∧ ∃ e ∈ l.entries.head?, e.drop sizeofGuid = cert

/-- For each hash of the type, in what the keys before it leave of some entries, all the entries with
the hash but the last stand in front. -/
def FrontRuns (type : Guid) (keys : List (Guid × List UInt8)) (es : List (List UInt8)) : Prop :=
  ∀ before key after, keys = before ++ key :: after → key.1 = type →
    FrontRun (hasHash key.2) (es.filter fun e => (type, e.drop sizeofGuid) ∉ before)

/-- A key is left; of the certificates in one list all but the first are to be deleted, and if the
first is, it stands first in a list of the request; all but the last of equal hashes to be deleted
stand in front when it is their turn. -/
structure Deletable (old request : List SignatureList) : Prop where
  left : ∃ key ∈ keysOf old, key ∉ keysOf request
  certs : ∀ l ∈ old, l.type = certTypeX509Guid →
    (∀ e ∈ l.entries.tail, (l.type, e.drop sizeofGuid) ∈ keysOf request) ∧
      ∀ e ∈ l.entries.head?, (l.type, e.drop sizeofGuid) ∈ keysOf request →
        FirstIn request (e.drop sizeofGuid)
  hashes : ∀ l ∈ old, l.type ≠ certTypeX509Guid → FrontRuns l.type (keysOf request) l.entries

section

variable {old request : List SignatureList} {keys : List (Guid × List UInt8)}
  {key : Guid × List UInt8} {type : Guid} {es : List (List UInt8)} {cert : List UInt8}
  {l : SignatureList}

lemma foldl_strike_cert :
    keys.foldl (strike certTypeX509Guid) es = es.filter fun e => (certTypeX509Guid, e) ∉ keys := by
  induction keys generalizing es with
  | nil => simp
  | cons key keys ih =>
    rw [foldl_cons, ih]
    unfold strike
    obtain ⟨type, data⟩ := key
    by_cases htype : certTypeX509Guid = type
    · subst htype
      rw [if_neg (not_not.mpr rfl), if_pos rfl, filter_filter]
      congr 1
      funext e
      simp [Bool.and_comm]
    · rw [if_pos htype]
      congr 1
      funext e
      simp [htype]

lemma FrontRuns.of_append {keys' : List (Guid × List UInt8)} (h : FrontRuns type (keys ++ keys') es) :
    FrontRuns type keys es := by
  rintro before key after rfl htype
  exact h before key (after ++ keys') (by simp) htype

lemma strike_of_frontRun (htype : type ≠ certTypeX509Guid) {data : List UInt8}
    (h : FrontRun (hasHash data) es) :
    strike type es (type, data) = es.filter fun e => !hasHash data e := by
  unfold strike
  rw [if_neg (not_not.mpr rfl), if_neg htype]
  exact sweep_eq_filter_iff.mpr h

lemma foldl_strike_hash (htype : type ≠ certTypeX509Guid) (h : FrontRuns type keys es) :
    keys.foldl (strike type) es = es.filter fun e => (type, e.drop sizeofGuid) ∉ keys := by
  induction keys using reverseRecOn with
  | nil => simp
  | append_singleton keys key ih =>
    obtain ⟨type', data⟩ := key
    rw [foldl_append, ih h.of_append, foldl_cons, foldl_nil]
    by_cases hsame : type = type'
    · subst hsame
      rw [strike_of_frontRun htype (h keys _ [] rfl rfl), filter_filter]
      congr 1
      funext e
      simp [hasHash, Bool.and_comm]
    · have hstrike : ∀ es, strike type es (type', data) = es := fun _ => if_pos hsame
      rw [hstrike]
      congr 1
      funext e
      simp [hsame]

/-- If no hash is named twice and none that is named is left, then each was deleted right: the last
one that was not would still be there. -/
theorem frontRuns_of_foldl (htype : type ≠ certTypeX509Guid)
    (hnodup : (keys.filter fun key => key.1 ≠ certTypeX509Guid).Nodup)
    (h : ∀ e ∈ keys.foldl (strike type) es, (type, e.drop sizeofGuid) ∉ keys) :
    FrontRuns type keys es := by
  induction keys using reverseRecOn with
  | nil =>
    intro before key after heq
    simp at heq
  | append_singleton keys key ih =>
    rw [filter_append] at hnodup
    rw [foldl_append, foldl_cons, foldl_nil] at h
    -- what the keys before the last one leave, and how the last one is struck from it
    have hlast : (∀ e ∈ keys.foldl (strike type) es, (type, e.drop sizeofGuid) ∉ keys) ∧
        (key.1 = type → FrontRun (hasHash key.2) (keys.foldl (strike type) es)) := by
      obtain ⟨type', data⟩ := key
      by_cases hsame : type = type'
      · subst hsame
        have hfront : FrontRun (hasHash data) (keys.foldl (strike type) es) := by
          by_contra hmany
          obtain ⟨e, he, hmatch⟩ := any_eq_true.mp ((sweep_spec _ _).2 hmany)
          have hstrike : strike type (keys.foldl (strike type) es) (type, data) =
              sweep (hasHash data) (keys.foldl (strike type) es) := by
            unfold strike
            rw [if_neg (not_not.mpr rfl), if_neg htype]
          refine h e (hstrike ▸ he) (mem_append_right _ ?_)
          rw [of_decide_eq_true hmatch]
          exact mem_singleton_self _
        refine ⟨fun e he hnamed => ?_, fun _ => hfront⟩
        rw [strike_of_frontRun htype hfront] at h
        by_cases hmatch : hasHash data e = true
        · rw [show e.drop sizeofGuid = data from of_decide_eq_true hmatch] at hnamed
          have hin : (type, data) ∈ keys.filter fun key => key.1 ≠ certTypeX509Guid :=
            mem_filter.mpr ⟨hnamed, decide_eq_true htype⟩
          exact (nodup_append.mp hnodup).2.2 _ hin (type, data) (by simp [htype]) rfl
        · exact h e (mem_filter.mpr ⟨he, by simpa using hmatch⟩) (mem_append_left _ hnamed)
      · have hstrike : ∀ es, strike type es (type', data) = es := fun _ => if_pos hsame
        rw [hstrike] at h
        exact ⟨fun e he hnamed => h e he (mem_append_left _ hnamed), fun heq => absurd heq.symm hsame⟩
    have hruns := ih hnodup.of_append_left hlast.1
    rw [foldl_strike_hash htype hruns] at hlast
    intro before key' after heq hkey
    rcases eq_nil_or_concat' after with rfl | ⟨after, last, rfl⟩
    · obtain ⟨rfl, hkeys⟩ := append_inj' heq rfl
      obtain rfl := singleton_inj.mp hkeys
      exact hlast.2 hkey
    · rw [← cons_append, ← append_assoc] at heq
      exact hruns before key' after (append_inj' heq rfl).1 hkey

lemma foldl_strike_filter :
    keys.foldl (strike type) es = (keys.filter fun key => key.1 = type).foldl (strike type) es := by
  induction keys generalizing es with
  | nil => rfl
  | cons key keys ih =>
    rw [foldl_cons, ih]
    by_cases hkey : key.1 = type
    · rw [filter_cons_of_pos (by simpa using hkey), foldl_cons]
    · have hstrike : strike type es key = es := if_pos (Ne.symm hkey)
      rw [filter_cons_of_neg (by simpa using hkey), hstrike]

lemma mem_requestKeys_cert :
    (certTypeX509Guid, cert) ∈ requestKeys request ↔ FirstIn request cert := by
  unfold requestKeys FirstIn
  rw [mem_flatMap]
  refine exists_congr fun l => and_congr_right fun _ => ?_
  rw [mem_map]
  unfold nodeKey listContent
  constructor
  · rintro ⟨e, he, heq⟩
    obtain ⟨htype, hdata⟩ := Prod.mk.inj heq
    rw [if_pos htype, Option.mem_toList, Option.map_eq_some_iff] at he
    obtain ⟨e', he', rfl⟩ := he
    rw [if_pos htype] at hdata
    exact ⟨htype, e', he', hdata⟩
  · rintro ⟨htype, e, he, rfl⟩
    refine ⟨e.drop sizeofGuid, ?_, by rw [htype, if_pos rfl]⟩
    rw [if_pos htype, Option.mem_toList, Option.map_eq_some_iff]
    exact ⟨e, he, rfl⟩

/-- Of the hashes every one is struck, in order. -/
theorem foldl_requestKeys (htype : type ≠ certTypeX509Guid) :
    (requestKeys request).foldl (strike type) es = (keysOf request).foldl (strike type) es := by
  rw [foldl_strike_filter]
  conv_rhs => rw [foldl_strike_filter]
  congr 1
  unfold requestKeys keysOf
  rw [filter_flatMap, filter_flatMap]
  congr 1
  funext l
  unfold listKeysOf listContent nodeKey
  by_cases hcert : l.type = certTypeX509Guid
  · rw [filter_map, filter_map, filter_eq_nil_iff.mpr, filter_eq_nil_iff.mpr]
    · rfl
    · simp [hcert, Ne.symm htype]
    · simp [hcert, Ne.symm htype]
  · simp only [if_neg hcert]

lemma keysOf_of_firstIn (h : FirstIn request cert) : (certTypeX509Guid, cert) ∈ keysOf request := by
  obtain ⟨l, hl, htype, e, he, rfl⟩ := h
  refine mem_flatMap.mpr ⟨l, hl, mem_map.mpr ⟨e, mem_of_mem_head? he, ?_⟩⟩
  rw [htype]

/-- What the code leaves of a list. -/
def leftOf (request : List SignatureList) (l : SignatureList) : List (Guid × List UInt8) :=
  ((requestKeys request).foldl (strike l.type) (listContent l)).map (nodeKey l.type)

/-- What should be left of it. -/
def unnamedOf (request : List SignatureList) (l : SignatureList) : List (Guid × List UInt8) :=
  (listKeysOf l).filter fun key => key ∉ keysOf request

lemma leftOf_hash_eq (htype : l.type ≠ certTypeX509Guid) : leftOf request l =
    ((keysOf request).foldl (strike l.type) l.entries).map fun e => (l.type, e.drop sizeofGuid) := by
  have hcontent : listContent l = l.entries := if_neg htype
  unfold leftOf
  rw [hcontent, foldl_requestKeys htype]
  refine map_congr_left fun e _ => ?_
  exact congrArg (Prod.mk l.type) (if_neg htype)

lemma leftOf_hash (htype : l.type ≠ certTypeX509Guid)
    (hruns : FrontRuns l.type (keysOf request) l.entries) : leftOf request l = unnamedOf request l := by
  rw [leftOf_hash_eq htype, foldl_strike_hash htype hruns]
  unfold unnamedOf listKeysOf
  rw [filter_map]
  rfl

lemma leftOf_cert (htype : l.type = certTypeX509Guid) : leftOf request l =
      ((l.entries.head?.toList.map fun e => (l.type, e.drop sizeofGuid)).filter
        fun key => key ∉ requestKeys request) := by
  have hcontent : listContent l = l.entries.head?.toList.map fun e => e.drop sizeofGuid := by
    unfold listContent
    rw [if_pos htype]
    cases l.entries.head? <;> rfl
  have hkey : nodeKey l.type = fun e => (l.type, e) := by
    funext e
    exact congrArg (Prod.mk l.type) (if_pos htype)
  unfold leftOf
  rw [hcontent, htype, foldl_strike_cert, ← htype, hkey, filter_map, filter_map,
    map_map]
  rfl

lemma leftKeys_eq : leftKeys old request = old.flatMap (leftOf request) := rfl

lemma unnamedKeys_eq : unnamedKeys old request = old.flatMap (unnamedOf request) := by
  unfold unnamedKeys keysOf
  rw [filter_flatMap]
  rfl

lemma Deletable.leftKeys_eq (h : Deletable old request) :
    leftKeys old request = unnamedKeys old request := by
  rw [unnamedKeys_eq, Mok.leftKeys_eq]
  refine flatMap_congr fun l hl => ?_
  by_cases htype : l.type = certTypeX509Guid
  · obtain ⟨hrest, hfirst⟩ := h.certs l hl htype
    rw [leftOf_cert htype]
    unfold unnamedOf listKeysOf
    cases hentries : l.entries with
    | nil => rfl
    | cons e rest =>
      rw [hentries] at hrest hfirst
      have hgone : ((rest.map fun e => (l.type, e.drop sizeofGuid)).filter
          fun key => key ∉ keysOf request) = [] := by
        refine filter_eq_nil_iff.mpr fun key hkey => ?_
        obtain ⟨e', he', rfl⟩ := mem_map.mp hkey
        simpa using hrest e' he'
      have hsame : (l.type, e.drop sizeofGuid) ∈ requestKeys request ↔
          (l.type, e.drop sizeofGuid) ∈ keysOf request := by
        rw [htype, mem_requestKeys_cert]
        refine ⟨keysOf_of_firstIn, fun hnamed => hfirst e rfl ?_⟩
        rwa [htype]
      rw [List.head?_cons, Option.toList_some, map_singleton, map_cons, filter_cons,
        filter_cons, hgone, filter_nil]
      simp only [hsame]
  · exact leftOf_hash htype (h.hashes l hl htype)

/-! ## Where the condition comes from -/

lemma length_flatMap_le {α β : Type} {f g : α → List β} {ls : List α}
    (hle : ∀ l ∈ ls, (f l).length ≤ (g l).length) :
    (ls.flatMap f).length ≤ (ls.flatMap g).length ∧
      ((ls.flatMap f).length = (ls.flatMap g).length → ∀ l ∈ ls, (f l).length = (g l).length) := by
  induction ls with
  | nil => exact ⟨le_refl _, fun _ l hl => absurd hl not_mem_nil⟩
  | cons a ls ih =>
    obtain ⟨ha, hls⟩ := forall_mem_cons.mp hle
    obtain ⟨hle', heq'⟩ := ih hls
    rw [flatMap_cons, flatMap_cons, length_append, length_append]
    refine ⟨Nat.add_le_add ha hle', fun heq => forall_mem_cons.mpr ⟨by omega, ?_⟩⟩
    exact heq' (by omega)

lemma frontRuns_of_leftKeys
    (hnodup : ((keysOf request).filter fun key => key.1 ≠ certTypeX509Guid).Nodup)
    (h : leftKeys old request = unnamedKeys old request) (hl : l ∈ old)
    (htype : l.type ≠ certTypeX509Guid) : FrontRuns l.type (keysOf request) l.entries := by
  refine frontRuns_of_foldl htype hnodup fun e he => ?_
  have hmem : (l.type, e.drop sizeofGuid) ∈ leftKeys old request := by
    rw [leftKeys_eq]
    refine mem_flatMap.mpr ⟨l, hl, ?_⟩
    rw [leftOf_hash_eq htype]
    exact mem_map_of_mem he
  rw [h, unnamedKeys, mem_filter] at hmem
  exact of_decide_eq_true hmem.2

lemma firstIn_of_leftKeys
    (h : leftKeys old request = unnamedKeys old request) (hl : l ∈ old)
    (htype : l.type = certTypeX509Guid) {e : List UInt8} (he : e ∈ l.entries.head?)
    (hnamed : (l.type, e.drop sizeofGuid) ∈ keysOf request) :
    FirstIn request (e.drop sizeofGuid) := by
  by_contra hnot
  have hmem : (l.type, e.drop sizeofGuid) ∈ leftKeys old request := by
    rw [leftKeys_eq]
    refine mem_flatMap.mpr ⟨l, hl, ?_⟩
    rw [leftOf_cert htype]
    refine mem_filter.mpr ⟨mem_map.mpr ⟨e, Option.mem_toList.mpr he, rfl⟩, ?_⟩
    rw [decide_eq_true_eq, htype, mem_requestKeys_cert]
    exact hnot
  rw [h, unnamedKeys, mem_filter] at hmem
  exact of_decide_eq_true hmem.2 hnamed

lemma unnamedOf_split (request : List SignatureList) (l : SignatureList) : unnamedOf request l =
      ((l.entries.head?.toList.map fun e => (l.type, e.drop sizeofGuid)).filter
        fun key => key ∉ keysOf request) ++
      ((l.entries.tail.map fun e => (l.type, e.drop sizeofGuid)).filter
        fun key => key ∉ keysOf request) := by
  unfold unnamedOf listKeysOf
  rw [← filter_append, ← map_append]
  cases l.entries <;> rfl

lemma certs_of_leftKeys
    (h : leftKeys old request = unnamedKeys old request)
    (hhashes : ∀ l ∈ old, l.type ≠ certTypeX509Guid → FrontRuns l.type (keysOf request) l.entries)
    (hl : l ∈ old) (htype : l.type = certTypeX509Guid) :
    (∀ e ∈ l.entries.tail, (l.type, e.drop sizeofGuid) ∈ keysOf request) ∧
      ∀ e ∈ l.entries.head?, (l.type, e.drop sizeofGuid) ∈ keysOf request →
        FirstIn request (e.drop sizeofGuid) := by
  refine ⟨?_, fun e => firstIn_of_leftKeys h hl htype⟩
  -- of no list too little is left, so of no list too much
  have hcert : ∀ l ∈ old, l.type = certTypeX509Guid → leftOf request l =
      (l.entries.head?.toList.map fun e => (l.type, e.drop sizeofGuid)).filter
        fun key => key ∉ keysOf request := by
    intro l hl htype
    rw [leftOf_cert htype]
    refine filter_congr fun key hkey => ?_
    obtain ⟨e, he, rfl⟩ := mem_map.mp hkey
    rw [decide_eq_decide, not_iff_not]
    constructor
    · rw [htype, mem_requestKeys_cert]
      exact keysOf_of_firstIn
    · intro hnamed
      have hfirst := firstIn_of_leftKeys h hl htype (Option.mem_toList.mp he) hnamed
      rw [htype, mem_requestKeys_cert]
      exact hfirst
  have hle : ∀ l ∈ old, (leftOf request l).length ≤ (unnamedOf request l).length := by
    intro l hl
    by_cases htype : l.type = certTypeX509Guid
    · rw [hcert l hl htype, unnamedOf_split request l, length_append]
      exact Nat.le_add_right _ _
    · rw [leftOf_hash htype (hhashes l hl htype)]
  have heq := (length_flatMap_le hle).2
    (congrArg List.length (leftKeys_eq.symm.trans (h.trans unnamedKeys_eq))) l hl
  rw [hcert l hl htype, unnamedOf_split request l, length_append, Nat.left_eq_add,
    length_eq_zero_iff, filter_eq_nil_iff] at heq
  intro e he
  simpa using heq _ (mem_map_of_mem he)

end

def WrongLength (auth : Option Variable) : Prop :=
  ∃ x, auth = some x ∧ x.data.length ≤ passwordCryptSize ∧ x.data.length ≠ sha256DigestSize ∧
    x.data.length ≠ passwordCryptSize

def CanMatch (auth : Option Variable) : Prop :=
  ∃ x, auth = some x ∧ (x.data.length = sha256DigestSize ∨
    x.data.length = passwordCryptSize ∧ getHashSize ((Mem.ofBytes x.data).u16 0) ≠ 0)

def matchingEnv (auth : List UInt8) (setDb : Option EfiStatus) : PromptEnv where
  services := ⟨none, none, setDb, none, none, none, EfiStatus.none_ne_success⟩
  crypto := ⟨fun _ pwHash => .ok (pwHash.drop 44), fun _ _ => .ok auth⟩
  typed := fun _ => [0x61]
  yes := true
  allocData := true
  allocNodes := true
  allocMenu := true
  fresh := fun _ => 0

section

variable {env : PromptEnv} {name : MokVar} {st st' : MokState} {x : Variable}

lemma canMatch_of_authenticate {data : List UInt8}
    (h : authenticate env name data st = (none, st')) : CanMatch (st.vars name) := by
  unfold authenticate at h
  dsimp only at h
  split_ifs at h with hstop hpassword hmatch
  all_goals try cases h
  all_goals
    obtain ⟨hsuccess, hsize⟩ := not_or.mp hstop
    obtain ⟨-, x, hx, -, hlength⟩ := rtGetVariable_success (not_not.mp hsuccess)
  · rw [hlength] at hpassword
    refine ⟨x, hx, .inr ⟨hpassword, fun hzero => hmatch ?_⟩⟩
    rw [hx]
    unfold matchPassword
    simp only [Option.map_some, Option.getD_some, if_pos hzero]
    exact EfiStatus.noConfusion
  · rw [hlength] at hsize hpassword
    refine ⟨x, hx, .inl ?_⟩
    by_contra hne
    exact hsize ⟨hne, hpassword⟩

lemma askPassword_of_right {isRight : List UInt16 → Bool} {typed : ℕ → List UInt16} {n k : ℕ}
    (h : isRight (typed k) = true) : askPassword isRight typed (n + 1) k = .success := by
  rw [askPassword, if_pos h]

lemma authenticate_matchingEnv (st : MokState) (setDb : Option EfiStatus) (data : List UInt8)
    (hx : st.vars name = some x) (hmatch : CanMatch (st.vars name)) :
    authenticate (matchingEnv x.data setDb) name data st =
      (none, { st with log := .passwordMatched :: st.log }) := by
  obtain ⟨y, hy, hsize⟩ := hmatch
  obtain rfl : x = y := Option.some.inj (hx.symm.trans hy)
  have hle : ¬ passwordCryptSize < x.data.length := by
    rcases hsize with hsize | ⟨hsize, -⟩
    · rw [hsize]
      decide
    · rw [hsize]
      exact lt_irrefl _
  have hget : rtGetVariable (matchingEnv x.data setDb).services.readAuth passwordCryptSize
      (some x) = (.success, x.data.length) := if_neg hle
  unfold authenticate
  simp only [hx, hget, Option.map_some, Option.getD_some]
  rcases hsize with hsize | ⟨hsize, hmethod⟩
  · have hstatus : matchPassword (matchingEnv x.data setDb) none data (some x.data) = .success := by
      refine askPassword_of_right ?_
      simp [passwordMatches, matchingEnv, passwordMin, passwordMax]
    have hother : ¬ x.data.length = passwordCryptSize := by
      rw [hsize]
      decide
    rw [if_neg (by simp [hsize]), if_neg hother, hstatus]
    simp
  · have hstatus : matchPassword (matchingEnv x.data setDb) (some x.data) [] none = .success := by
      unfold matchPassword
      simp only [if_neg hmethod]
      refine askPassword_of_right ?_
      simp [passwordMatches, matchingEnv, passwordMin, passwordMax]
    rw [if_neg (by simp [hsize]), if_pos hsize, hstatus]
    simp

end

/-! ## When a deletion leaves what it should -/

/-- Whatever happens: after a success the variable has the keys that are not named. -/
def DeletesNamed (old request : List SignatureList) (vars : MokVar → Option Variable)
    (mokX : Bool) : Prop :=
  ∀ env : PromptEnv, env.services.setDb ≠ some .success →
    (deleteKeys env (encodeLists request) mokX (start vars)).1 = .success →
    storedKeys ((deleteKeys env (encodeLists request) mokX (start vars)).2.vars (dbName mokX)) =
      unnamedKeys old request

/-- With an authentication variable of a wrong size no key of the variable is named; with one that a
password can match, and a variable that the operating system cannot have written, the deletion works. -/
structure DeletionOk (old request : List SignatureList) (auth : Option Variable) (attributes : ℕ) :
    Prop where
  wrong : WrongLength auth → ∀ key ∈ keysOf old, key ∉ keysOf request
  right : CanMatch auth → attributes &&& runtimeAccess = 0 → Deletable old request

section

variable {old request : List SignatureList} {vars : MokVar → Option Variable} {mokX : Bool}
  {v x : Variable} {env : PromptEnv}

def matched (vars : MokVar → Option Variable) : MokState :=
  { start vars with log := .passwordMatched :: (start vars).log }

lemma deleteKeys_matchingEnv (setDb : Option EfiStatus) (data : List UInt8)
    (hx : vars (delAuthName mokX) = some x) (hmatch : CanMatch (vars (delAuthName mokX))) :
    deleteKeys (matchingEnv x.data setDb) data mokX (start vars) =
      deleteAuthenticated (matchingEnv x.data setDb) data mokX (matched vars) := by
  have hauth := authenticate_matchingEnv (start vars) setDb data hx hmatch
  unfold deleteKeys
  rw [hauth]
  rfl

lemma deleteKeys_success_cases {data : List UInt8}
    (h : (deleteKeys env data mokX (start vars)).1 = .success) :
    WrongLength (vars (delAuthName mokX)) ∧ (deleteKeys env data mokX (start vars)).2 = start vars ∨
      CanMatch (vars (delAuthName mokX)) ∧
        deleteKeys env data mokX (start vars) = deleteAuthenticated env data mokX (matched vars) := by
  rcases authenticate_spec env (delAuthName mokX) data (start vars) with
    ⟨hauth, -⟩ | ⟨status, hauth, hstatus⟩
  · refine .inr ⟨canMatch_of_authenticate hauth, ?_⟩
    unfold deleteKeys
    rw [hauth]
    rfl
  · have hcall : deleteKeys env data mokX (start vars) = (status, start vars) := by
      unfold deleteKeys
      rw [hauth]
    rw [hcall] at h ⊢
    obtain ⟨-, hwrong⟩ := hstatus.mp h
    exact .inl ⟨hwrong, rfl⟩

lemma Deletion.storedKeys (h : Deletion vars mokX v old request) :
    storedKeys (vars (dbName mokX)) = keysOf old := by
  obtain ⟨data, attributes⟩ := v
  obtain rfl : data = encodeLists old := h.data
  rw [h.stored]
  exact storedKeys_encodeLists h.oldKeys.length_type attributes

lemma DeletesNamed.deletable (h : DeletesNamed old request vars mokX)
    (hdel : Deletion vars mokX v old request)
    (hnodup : ((keysOf request).filter fun key => key.1 ≠ certTypeX509Guid).Nodup)
    (hmatch : CanMatch (vars (delAuthName mokX))) (hruntime : v.attributes &&& runtimeAccess = 0) :
    Deletable old request := by
  obtain ⟨x, hx, -⟩ := id hmatch
  have hleft : leftKeys old request = unnamedKeys old request := by
    have hcall := deleteKeys_matchingEnv none (encodeLists request) hx hmatch
    have hsuccess : (deleteAuthenticated (matchingEnv x.data none) (encodeLists request) mokX
        (matched vars)).1 = .success :=
      deleteAuthenticated_success hdel ⟨rfl, hruntime, rfl⟩ rfl (.inl rfl)
    have hset : (matchingEnv x.data none).services.setDb ≠ some .success := EfiStatus.none_ne_success
    have hstored := h (matchingEnv x.data none) hset (by rw [hcall, hsuccess])
    rw [hcall] at hstored
    rcases storedKeys_of_success hdel hset hsuccess with heq | ⟨-, hfails, -⟩
    · exact heq.symm.trans hstored
    · exact absurd rfl hfails
  have hhashes : ∀ l ∈ old, l.type ≠ certTypeX509Guid → FrontRuns l.type (keysOf request) l.entries :=
    fun l hl htype => frontRuns_of_leftKeys hnodup hleft hl htype
  refine ⟨?_, fun l hl htype => certs_of_leftKeys hleft hhashes hl htype, hhashes⟩
  -- if nothing is left, the variable is to be deleted, and nobody looks whether that works
  by_contra hnone
  have hempty : unnamedKeys old request = [] := by
    refine filter_eq_nil_iff.mpr fun key hkey => ?_
    by_contra hunnamed
    exact hnone ⟨key, hkey, of_decide_eq_true hunnamed⟩
  have hcall := deleteKeys_matchingEnv (some .outOfResources) (encodeLists request) hx hmatch
  have hsuccess : (deleteAuthenticated (matchingEnv x.data (some .outOfResources))
      (encodeLists request) mokX (matched vars)).1 = .success :=
    deleteAuthenticated_success hdel ⟨rfl, hruntime, rfl⟩ rfl (.inr (hleft.trans hempty))
  have hset : (matchingEnv x.data (some .outOfResources)).services.setDb ≠ some .success := by
    intro heq
    cases heq
  have hstored := h (matchingEnv x.data (some .outOfResources)) hset (by rw [hcall, hsuccess])
  rw [hcall, hempty] at hstored
  have hworks : Proceeds (matchingEnv x.data (some .outOfResources)) v := ⟨rfl, hruntime, rfl⟩
  have hmatched : Deletion (matched vars).vars mokX v old request := hdel
  obtain ⟨ls, -, hnil, -, hresult⟩ := deleteAuthenticated_of_lists hmatched hworks
  rw [hresult, if_pos (hnil.mpr (hleft.trans hempty))] at hstored
  have hnone : keysOf old = [] := hdel.storedKeys.symm.trans hstored
  exact hdel.old_ne ((keysOf_eq_nil_iff fun l hl => (hdel.oldKeys.lists l hl).entries).mp hnone)

/-- What a successful `delete_keys` leaves are the keys that the request does not name, for every
behaviour of the firmware, if the condition holds; and only then, if no hash is named twice. -/
theorem deleteKeys_exact (old request : List SignatureList) (vars : MokVar → Option Variable)
    (mokX : Bool) (v : Variable) (hdel : Deletion vars mokX v old request) :
    (DeletionOk old request (vars (delAuthName mokX)) v.attributes →
      DeletesNamed old request vars mokX) ∧
    (((keysOf request).filter fun key => key.1 ≠ certTypeX509Guid).Nodup →
      DeletesNamed old request vars mokX →
      DeletionOk old request (vars (delAuthName mokX)) v.attributes) := by
  have hkept := hdel.storedKeys
  constructor
  · rintro ⟨hwrong, hright⟩ env hset hsuccess
    rcases deleteKeys_success_cases hsuccess with ⟨hlength, hstate⟩ | ⟨hmatch, hcall⟩
    · rw [hstate]
      refine hkept.trans (filter_eq_self.mpr fun key hkey => ?_).symm
      exact decide_eq_true (hwrong hlength key hkey)
    rw [hcall] at hsuccess ⊢
    have hmatched : Deletion (matched vars).vars mokX v old request := hdel
    have hcond := hright hmatch (hmatched.proceeds hsuccess).runtime
    have hleft := hcond.leftKeys_eq
    rcases storedKeys_of_success hmatched hset hsuccess with heq | ⟨hnil, -⟩
    · exact heq.trans hleft
    obtain ⟨key, hkey, hunnamed⟩ := hcond.left
    have hmem : key ∈ leftKeys old request := by
      rw [hleft]
      exact mem_filter.mpr ⟨hkey, decide_eq_true hunnamed⟩
    rw [hnil] at hmem
    cases hmem
  · intro hnodup h
    refine ⟨fun hwrong key hkey hnamed => ?_, fun hmatch hruntime =>
      h.deletable hdel hnodup hmatch hruntime⟩
    obtain ⟨x, hx, -⟩ := id hwrong
    rcases authenticate_spec (matchingEnv x.data none) (delAuthName mokX) (encodeLists request)
      (start vars) with ⟨-, hright⟩ | ⟨status, hauth, hstatus⟩
    · exact hright ⟨rfl, hwrong⟩
    have hcall : deleteKeys (matchingEnv x.data none) (encodeLists request) mokX (start vars) =
        (status, start vars) := by
      unfold deleteKeys
      rw [hauth]
    have hstored := h (matchingEnv x.data none) EfiStatus.none_ne_success
      (by rw [hcall]; exact hstatus.mpr ⟨rfl, hwrong⟩)
    rw [hcall] at hstored
    have hmem : key ∈ keysOf old := hkey
    rw [← hkept, show storedKeys (vars (dbName mokX)) = _ from hstored, unnamedKeys,
      mem_filter] at hmem
    exact of_decide_eq_true hmem.2 hnamed

end

/-- Hashes, each of one byte repeated. -/
def hashListOf (bytes : List UInt8) (h : bytes.length ≤ 100) : SignatureList :=
  .plain certSha256Guid 48 (bytes.map hashEntry) ⟨by decide, by decide, by
    intro e he
    obtain ⟨b, -, rfl⟩ := mem_map.mp he
    rfl, by rw [length_map]; omega⟩

def oneHashList : SignatureList := hashListOf [2] (by decide)

def hashList : SignatureList := hashListOf [2, 1, 2] (by decide)

def oneCertList : SignatureList :=
  .plain certTypeX509Guid 21 [List.replicate 16 0 ++ tinyCert 1] (by decide)

/-- A `MokList`, and an authentication variable of the size of a digest. -/
def mokListOf (ls : List SignatureList) : MokVar → Option Variable
  | .mokList => some ⟨encodeLists ls, uefiVarNvBs⟩
  | .mokDelAuth => some ⟨List.replicate 32 7, uefiVarNvBsRt⟩
  | _ => none

/-- The request is to delete a hash, and the second certificate of another list is gone as well. -/
theorem deleteKeys_loses_certificate :
    (∀ l ∈ [secondEntryList, hashList, oneHashList], IsKeyList l) ∧
      (let r := deleteKeys (matchingEnv (List.replicate 32 7) none) (encodeLists [oneHashList]) false
        (start (mokListOf [secondEntryList, hashList]))
      r.1 = .success ∧ storedKeys (r.2.vars .mokList) =
          [(certTypeX509Guid, tinyCert 1), (certSha256Guid, List.replicate 32 1)]) ∧
      ((keysOf [secondEntryList, hashList]).filter fun key => key ∉ keysOf [oneHashList]) =
        [(certTypeX509Guid, tinyCert 1), (certTypeX509Guid, tinyCert 2),
          (certSha256Guid, List.replicate 32 1)] := by
  decide +kernel

theorem deleteKeys_exact_hash :
    DeletesNamed [oneCertList, hashList] [oneHashList] (mokListOf [oneCertList, hashList]) false := by
  have hdel : Deletion (mokListOf [oneCertList, hashList]) false _ [oneCertList, hashList]
      [oneHashList] :=
    ⟨⟨by decide +kernel, by decide +kernel⟩, cons_ne_nil _ _,
      ⟨by decide +kernel, by decide +kernel⟩, cons_ne_nil _ _, rfl, rfl⟩
  refine (deleteKeys_exact _ _ _ false _ hdel).1 ⟨?_, fun _ _ => ⟨?_, ?_, ?_⟩⟩
  · rintro ⟨x, hx, -, hne, -⟩
    cases hx
    exact absurd rfl hne
  · exact ⟨(certTypeX509Guid, tinyCert 1), by decide +kernel, by decide +kernel⟩
  · intro l hl htype
    rcases mem_cons.mp hl with rfl | hl
    · refine ⟨fun e he => absurd he not_mem_nil, fun e he hnamed => ?_⟩
      cases he
      exact absurd hnamed (by decide +kernel)
    · rw [mem_singleton.mp hl] at htype
      exact absurd htype (by decide)
  · intro l hl htype before key after hkeys _
    rcases mem_cons.mp hl with rfl | hl
    · exact absurd rfl htype
    obtain rfl := mem_singleton.mp hl
    have hone : before ++ key :: after = [(certSha256Guid, List.replicate 32 2)] := hkeys.symm
    rcases append_eq_singleton_iff.mp hone with ⟨rfl, hkey⟩ | ⟨-, hnil⟩
    · obtain ⟨rfl, -⟩ := List.cons.inj hkey
      decide +kernel
    · cases hnil

end Shim.Mok
