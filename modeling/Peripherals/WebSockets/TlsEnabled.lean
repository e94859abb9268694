import Mathlib.Data.List.TakeWhile
import Peripherals.Attempt

namespace Peripherals.WebSockets.Tls

open Attempt

inductive SslOption
  | default_workarounds | no_sslv2 | no_sslv3 | no_tlsv1 | no_tlsv1_1 | single_dh_use
  deriving DecidableEq

inductive VerifyMode
  | verify_peer | verify_fail_if_no_peer_cert
  deriving DecidableEq

/-- What the calls on an `ssl::context` that have come back have set. A new one
verifies nobody. -/
structure Context where
  options : List SslOption
  verify_mode : List VerifyMode
  verify_callback : Bool
  default_verify_paths : Bool
  verify_files : List String
  ecdh_auto : Bool
  certificate_chain : Option String
  private_key : Option String

def Context.new : Context := ⟨[], [], false, false, [], false, none, none⟩

inductive Call
  | set_options (options : List SslOption)
  | set_verify_mode (mode : List VerifyMode)
  | set_verify_callback
  | set_default_verify_paths
  | load_verify_file (filename : String)
  | use_certificate_chain_file (filename : String)
  | use_private_key_file (filename : String)

def Call.exec (ctx : Context) : Call → Context
  | .set_options options => { ctx with options }
  | .set_verify_mode verify_mode => { ctx with verify_mode }
  | .set_verify_callback => { ctx with verify_callback := true }
  | .set_default_verify_paths => { ctx with default_verify_paths := true }
  | .load_verify_file filename => { ctx with verify_files := ctx.verify_files ++ [filename] }
  | .use_certificate_chain_file filename => { ctx with certificate_chain := some filename }
  | .use_private_key_file filename => { ctx with private_key := some filename }

/-- Which calls throw, and what `boost::filesystem::exists` answers, if it does not. Calls
with the same arguments come out alike. -/
structure Library where
  throws : Call → Bool
  exists_ : String → Option Bool

structure TlsEnabled where
  CAFileNames_ : List String
  certFileName_ : String
  keyFileName_ : String

abbrev Block := OptionT (StateM Context)

def perform (lib : Library) (c : Call) : Block Unit := OptionT.mk fun ctx ↦
  if lib.throws c then (none, ctx) else (some (), c.exec ctx)

def fileExists (lib : Library) (filename : String) : Block Bool := OptionT.mk fun ctx ↦
  (lib.exists_ filename, ctx)

def logged (x : Block Unit) : Block Unit := OptionT.mk fun ctx ↦ (some (), (x.run ctx).2)

def loadCertificateAuthorities (lib : Library) (tls : TlsEnabled) : Block Unit := do
  if tls.CAFileNames_ = [] then
    logged (perform lib .set_default_verify_paths)
  else
    for certificateAuthority in tls.CAFileNames_ do
      if ← fileExists lib certificateAuthority then
        logged (perform lib (.load_verify_file certificateAuthority))

def options : List SslOption :=
  [.default_workarounds, .no_sslv2, .no_sslv3, .no_tlsv1, .no_tlsv1_1, .single_dh_use]

def verifyMode : List VerifyMode := [.verify_peer, .verify_fail_if_no_peer_cert]

/-- The `try` block of `onTlsInit`. -/
def prepare (lib : Library) (tls : TlsEnabled) : Block Unit := do
  perform lib (.set_options options)
  perform lib (.set_verify_mode verifyMode)
  perform lib .set_verify_callback
  loadCertificateAuthorities lib tls
  modify fun ctx ↦ { ctx with ecdh_auto := true }
  if ← fileExists lib tls.certFileName_ then
    perform lib (.use_certificate_chain_file tls.certFileName_)
    if ← fileExists lib tls.keyFileName_ then
      perform lib (.use_private_key_file tls.keyFileName_)

def onTlsInit (lib : Library) (tls : TlsEnabled) : Context := ((prepare lib tls).run .new).2

variable {lib : Library} {tls : TlsEnabled} {ctx : Context} {c : Call} {filename : String}
  {E : Context → Prop}

theorem wp_perform {Q : Unit → Context → Prop} :
    wp (perform lib c) Q E ctx ↔
      if lib.throws c then E ctx else Q () (c.exec ctx) := by
  unfold wp perform
  simp only [OptionT.run_mk]
  cases lib.throws c <;> rfl

theorem wp_fileExists {Q : Bool → Context → Prop} :
    wp (fileExists lib filename) Q E ctx ↔ match lib.exists_ filename with
      | some b => Q b ctx
      | none => E ctx := by
  unfold wp fileExists
  simp only [OptionT.run_mk]
  cases lib.exists_ filename <;> rfl

theorem wp_logged {Q : Unit → Context → Prop} :
    wp (logged (perform lib c)) Q E ctx ↔
      Q () (if lib.throws c then ctx else c.exec ctx) := by
  unfold wp logged perform
  simp only [OptionT.run_mk]
  cases lib.throws c <;> rfl

def trusted (lib : Library) (CAFileNames_ : List String) : List String :=
  CAFileNames_.filter fun f ↦ lib.exists_ f = some true ∧ lib.throws (.load_verify_file f) = false

def Answered (lib : Library) (filename : String) : Bool := (lib.exists_ filename).isSome

def trust (lib : Library) (tls : TlsEnabled) (ctx : Context) : Context :=
  { ctx with
    default_verify_paths := ctx.default_verify_paths ||
      (tls.CAFileNames_.isEmpty && !lib.throws .set_default_verify_paths)
    verify_files :=
      ctx.verify_files ++ trusted lib (tls.CAFileNames_.takeWhile (Answered lib)) }

theorem trusted_snoc (lib : Library) (files : List String) (filename : String) :
    trusted lib (files ++ [filename]) = trusted lib files ++
      if lib.exists_ filename = some true ∧ lib.throws (.load_verify_file filename) = false then
        [filename]
      else [] := by
  rw [trusted, List.filter_append, List.filter_singleton, trusted]
  simp

theorem takeWhile_append_cons {A : Type*} {p : A → Bool} {pre post : List A} {a : A}
    (hpre : ∀ b ∈ pre, p b = true) (ha : p a = false) :
    (pre ++ a :: post).takeWhile p = pre := by
  rw [List.takeWhile_append_of_pos hpre, List.takeWhile_cons_of_neg (ne_true_of_eq_false ha),
    List.append_nil]

theorem wp_loadCertificateAuthorities {Q : Unit → Context → Prop}
    (hall : (∀ f ∈ tls.CAFileNames_, Answered lib f = true) → Q () (trust lib tls ctx))
    (hcut : (¬ ∀ f ∈ tls.CAFileNames_, Answered lib f = true) → E (trust lib tls ctx)) :
    wp (loadCertificateAuthorities lib tls) Q E ctx := by
  unfold loadCertificateAuthorities
  by_cases hnil : tls.CAFileNames_ = []
  · rw [if_pos hnil, wp_logged]
    have hread := hall (by simp [hnil])
    simp only [trust, hnil, List.isEmpty_nil, Bool.true_and, List.takeWhile_nil, trusted,
      List.filter_nil, List.append_nil] at hread
    split
    next hthrows => simpa [hthrows] using hread
    next hthrows => simpa [hthrows, Call.exec] using hread
  · rw [if_neg hnil]
    have hdefault : tls.CAFileNames_.isEmpty = false := by simpa using hnil
    simp only [wp_bind, wp_pure]
    refine wp_mono (E := E) ?_ (fun _ h ↦ h) (wp_forIn (I := fun pre ctx' ↦
      (∀ f ∈ pre, Answered lib f = true) ∧
        ctx' = { ctx with verify_files := ctx.verify_files ++ trusted lib pre })
      ⟨by simp, by simp [trusted]⟩ ?_)
    · intro _ ctx' hend
      obtain ⟨hyes, rfl⟩ := hend
      have hread := hall hyes
      rw [trust, List.takeWhile_eq_self_iff.mpr hyes, hdefault, Bool.false_and,
        Bool.or_false] at hread
      exact hread
    · intro pre f post ctx' hsplit hpre
      obtain ⟨hpre, rfl⟩ := hpre
      rw [wp_bind, wp_fileExists]
      cases hf : lib.exists_ f with
      | none =>
        have hno : Answered lib f = false := by simp [Answered, hf]
        have hnot : ¬ ∀ f ∈ tls.CAFileNames_, Answered lib f = true := by
          intro hyes
          rw [hyes f (by simp [hsplit])] at hno
          cases hno
        have hend := hcut hnot
        rw [trust, hsplit, takeWhile_append_cons hpre hno, ← hsplit, hdefault, Bool.false_and,
          Bool.or_false] at hend
        exact hend
      | some there =>
        have hyes : ∀ g ∈ pre ++ [f], Answered lib g = true := by
          intro g hg
          rcases List.mem_append.mp hg with hg | hg
          · exact hpre g hg
          · simp [List.mem_singleton.mp hg, Answered, hf]
        cases there with
        | false =>
          refine ⟨rfl, hyes, ?_⟩
          simp [trusted_snoc, hf]
        | true =>
          simp only [if_true, wp_bind, wp_logged, wp_pure, true_and]
          refine ⟨hyes, ?_⟩
          cases hthrows : lib.throws (.load_verify_file f) with
          | false => simp [trusted_snoc, hf, hthrows, Call.exec]
          | true => simp [trusted_snoc, hf, hthrows]

def demands (lib : Library) : Bool :=
  !lib.throws (.set_options options) && !lib.throws (.set_verify_mode verifyMode)

def begins (lib : Library) : Bool := demands lib && !lib.throws .set_verify_callback

def identifies (lib : Library) (tls : TlsEnabled) : Bool :=
  begins lib && tls.CAFileNames_.all (Answered lib) &&
    lib.exists_ tls.certFileName_ == some true &&
      !lib.throws (.use_certificate_chain_file tls.certFileName_)

def signs (lib : Library) (tls : TlsEnabled) : Bool :=
  identifies lib tls && lib.exists_ tls.keyFileName_ == some true &&
    !lib.throws (.use_private_key_file tls.keyFileName_)

structure Established (lib : Library) (tls : TlsEnabled) (ctx : Context) : Prop where
  mode : ctx.verify_mode = if demands lib then verifyMode else []
  options : demands lib = true → ctx.options = options
  files : ctx.verify_files =
    if begins lib then trusted lib (tls.CAFileNames_.takeWhile (Answered lib)) else []
  default : ctx.default_verify_paths =
    (begins lib && (tls.CAFileNames_.isEmpty && !lib.throws .set_default_verify_paths))
  chain : ctx.certificate_chain = if identifies lib tls then some tls.certFileName_ else none
  key : ctx.private_key = if signs lib tls then some tls.keyFileName_ else none

theorem established_stopped (hbegins : begins lib = false)
    (hmode : ctx.verify_mode = if demands lib then verifyMode else [])
    (hoptions : demands lib = true → ctx.options = options) (hfiles : ctx.verify_files = [])
    (hdefault : ctx.default_verify_paths = false) (hchain : ctx.certificate_chain = none)
    (hkey : ctx.private_key = none) : Established lib tls ctx := by
  have hidentifies : identifies lib tls = false := by simp [identifies, hbegins]
  have hsigns : signs lib tls = false := by simp [signs, hidentifies]
  refine ⟨hmode, hoptions, ?_, ?_, ?_, ?_⟩
  · simp [hbegins, hfiles]
  · simp [hbegins, hdefault]
  · simp [hidentifies, hchain]
  · simp [hsigns, hkey]

def begun : Context :=
  { Context.new with options := options, verify_mode := verifyMode, verify_callback := true }

theorem established_begun (hbegins : begins lib = true) (ecdh_auto : Bool)
    {chain key : Option String}
    (hchain : chain = if identifies lib tls then some tls.certFileName_ else none)
    (hkey : key = if signs lib tls then some tls.keyFileName_ else none) :
    Established lib tls { trust lib tls begun with
      ecdh_auto, certificate_chain := chain, private_key := key } := by
  have hdemands : demands lib = true := by
    rw [begins, Bool.and_eq_true] at hbegins
    exact hbegins.1
  exact ⟨by simp [trust, begun, hdemands], fun _ ↦ rfl,
    by simp [trust, begun, Context.new, hbegins], by simp [trust, begun, Context.new, hbegins],
    hchain, hkey⟩

/-- The rest of the block, once the certificate authorities have been gone through. -/
theorem wp_identify (hbegins : begins lib = true)
    (hall : ∀ f ∈ tls.CAFileNames_, Answered lib f = true) :
    wp (do
        if ← fileExists lib tls.certFileName_ then
          perform lib (.use_certificate_chain_file tls.certFileName_)
          if ← fileExists lib tls.keyFileName_ then
            perform lib (.use_private_key_file tls.keyFileName_))
      (fun _ ctx ↦ Established lib tls ctx) (Established lib tls)
      { trust lib tls begun with ecdh_auto := true } := by
  have hanswered : tls.CAFileNames_.all (Answered lib) = true := List.all_eq_true.mpr hall
  have hnone : ¬ (lib.exists_ tls.certFileName_ = some true ∧
      lib.throws (.use_certificate_chain_file tls.certFileName_) = false) →
      Established lib tls { trust lib tls begun with ecdh_auto := true } := by
    intro hnot
    have hidentifies : identifies lib tls = false := by
      simpa [identifies, hbegins, hanswered] using hnot
    exact established_begun hbegins true (by rw [hidentifies]; rfl)
      (by rw [signs, hidentifies]; rfl)
  rw [wp_bind, wp_fileExists]
  cases hcert : lib.exists_ tls.certFileName_ with
  | none => exact hnone (by simp [hcert])
  | some there =>
    cases there with
    | false => exact hnone (by simp [hcert])
    | true =>
      simp only [if_true, wp_bind, wp_perform]
      cases hchain : lib.throws (.use_certificate_chain_file tls.certFileName_) with
      | true => exact hnone (by simp [hchain])
      | false =>
        have hidentifies : identifies lib tls = true := by
          simp [identifies, hbegins, hanswered, hcert, hchain]
        have hunsigned : signs lib tls = false → Established lib tls
            { trust lib tls begun with
              ecdh_auto := true, certificate_chain := some tls.certFileName_ } := by
          intro hsigns
          exact established_begun hbegins true (by rw [hidentifies]; rfl) (by rw [hsigns]; rfl)
        simp only [Bool.false_eq_true, if_false, wp_fileExists]
        cases hkey : lib.exists_ tls.keyFileName_ with
        | none => exact hunsigned (by simp [signs, hkey])
        | some there =>
          cases there with
          | false => exact hunsigned (by simp [signs, hkey])
          | true =>
            simp only [if_true, wp_perform]
            cases hsign : lib.throws (.use_private_key_file tls.keyFileName_) with
            | true => exact hunsigned (by simp [signs, hsign])
            | false =>
              have hsigns : signs lib tls = true := by simp [signs, hidentifies, hkey, hsign]
              exact established_begun hbegins true (by rw [hidentifies]; rfl) (by rw [hsigns]; rfl)

theorem established_onTlsInit (lib : Library) (tls : TlsEnabled) :
    Established lib tls (onTlsInit lib tls) := by
  apply wp_final
  simp only [prepare, wp_bind, wp_perform]
  cases hoptions : lib.throws (.set_options options) with
  | true =>
    have hdemands : demands lib = false := by simp [demands, hoptions]
    have hbegins : begins lib = false := by simp [begins, hdemands]
    exact established_stopped hbegins (by rw [hdemands]; rfl) (by simp [hdemands]) rfl rfl rfl rfl
  | false =>
    cases hmode : lib.throws (.set_verify_mode verifyMode) with
    | true =>
      have hdemands : demands lib = false := by simp [demands, hmode]
      have hbegins : begins lib = false := by simp [begins, hdemands]
      exact established_stopped hbegins (by rw [hdemands]; rfl) (fun _ ↦ rfl) rfl rfl rfl rfl
    | false =>
      have hdemands : demands lib = true := by simp [demands, hoptions, hmode]
      cases hcallback : lib.throws .set_verify_callback with
      | true =>
        have hbegins : begins lib = false := by simp [begins, hcallback]
        exact established_stopped hbegins (by rw [hdemands]; rfl) (fun _ ↦ rfl) rfl rfl rfl rfl
      | false =>
        have hbegins : begins lib = true := by simp [begins, hdemands, hcallback]
        apply wp_loadCertificateAuthorities
        · intro hall
          have hrest := wp_identify hbegins hall
          rw [wp_bind] at hrest
          rw [wp_modify]
          exact hrest
        · intro hcut
          have hidentifies : identifies lib tls = false := by
            have hsome : tls.CAFileNames_.all (Answered lib) = false := by
              rw [← Bool.not_eq_true, List.all_eq_true]
              exact hcut
            simp [identifies, hsome]
          exact established_begun hbegins false (by rw [hidentifies]; rfl)
            (by rw [signs, hidentifies]; rfl)

/-- A context that does not verify its peers has nothing to verify them with and nothing
to show them. -/
theorem Established.unverified (h : Established lib tls ctx)
    (hmode : .verify_peer ∉ ctx.verify_mode) : ctx.verify_files = [] ∧
      ctx.default_verify_paths = false ∧ ctx.certificate_chain = none ∧ ctx.private_key = none := by
  have hdemands : demands lib = false := by
    cases hd : demands lib with
    | false => rfl
    | true =>
      rw [h.mode, hd] at hmode
      exact (hmode List.mem_cons_self).elim
  have hbegins : begins lib = false := by simp [begins, hdemands]
  have hidentifies : identifies lib tls = false := by simp [identifies, hbegins]
  refine ⟨by simp [h.files, hbegins], by simp [h.default, hbegins], ?_, ?_⟩
  · simp [h.chain, hidentifies]
  · simp [h.key, signs, hidentifies]

theorem onTlsInit_established (lib : Library) (tls : TlsEnabled) :
    Established lib tls (onTlsInit lib tls) ∧
      (.verify_peer ∉ (onTlsInit lib tls).verify_mode → (onTlsInit lib tls).verify_files = [] ∧
        (onTlsInit lib tls).default_verify_paths = false ∧
          (onTlsInit lib tls).certificate_chain = none ∧ (onTlsInit lib tls).private_key = none) :=
  ⟨established_onTlsInit lib tls, (established_onTlsInit lib tls).unverified⟩

end Peripherals.WebSockets.Tls
