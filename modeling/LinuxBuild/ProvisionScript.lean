import LinuxBuild.Provision
import LinuxBuild.ShellWords

/-!
# `provision_script`

The script that a root shell of the guest runs. The only text of the preset in
it are the names of the packages.
-/

namespace LinuxBuild.Distro

open Sh

/-- The words before the packages, and the assignment before them. -/
def installWords : Kind → List Text
  | .alpine => ["apk", "add", "--no-cache", "busybox", "openssh"].map text
  | .debian =>
    ["apt_retry", "install", "-y", "--no-install-recommends", "busybox-static",
      "openssh-server"].map text

def installAssignments : Kind → List (Text × Text)
  | .alpine => []
  | .debian => [(text "DEBIAN_FRONTEND", text "noninteractive")]

def installLine (kind : Kind) (packages : Text) : Text :=
  match kind with
  | .alpine => text "apk add --no-cache busybox openssh " ++ packages
  | .debian =>
    text "DEBIAN_FRONTEND=noninteractive apt_retry install -y --no-install-recommends busybox-static openssh-server " ++ packages

/-- The lines of `install` around the one with the packages. -/
def beforeInstall : Kind → List Text
  | .alpine => ["test \"$(apk --print-arch)\" = riscv64"].map text
  | .debian =>
    ["test \"$(dpkg --print-architecture)\" = riscv64",
     "# Retry complete acquisitions as well as connections; some proxies return 502.",
     "apt_retry() \x7b",
     "    for attempt in 1 2 3; do",
     "        apt-get -o Acquire::Retries=3 -o Acquire::http::Pipeline-Depth=0 \"$@\" && return 0",
     "        [ \"$attempt\" -lt 3 ] || return 1",
     "        sleep 2",
     "    done",
     "\x7d",
     "apt_retry update"].map text

def afterInstall : Kind → List Text
  | .alpine => ["apk info -v | sort > /var/lib/raptor/build-packages.txt"].map text
  | .debian =>
    ["apt-get clean",
     "rm -rf /var/lib/apt/lists/*",
     "dpkg-query -W > /var/lib/raptor/build-packages.txt"].map text

def scriptHead : List Text :=
  ["#!/bin/sh",
   "set -eu",
   "export PATH=/usr/local/sbin:/usr/local/bin:/usr/sbin:/usr/bin:/sbin:/bin",
   "mkdir -p /var/lib/raptor"].map text

def scriptTail : List Text :=
  ["for applet in init udhcpc ip ifconfig mount grep reboot poweroff; do",
   "    /bin/busybox --list | grep -qx \"$applet\" || \x7b echo \"Missing required BusyBox applet: $applet\"; exit 1; \x7d",
   "done",
   "mkdir -p /proc /sys /dev /run /tmp /root /etc/ssh",
   "chmod 1777 /tmp",
   "rm -f /etc/ssh/ssh_host_*",
   "printf 'PermitRootLogin prohibit-password\\nPasswordAuthentication no\\nKbdInteractiveAuthentication no\\n' > /etc/ssh/sshd_config",
   "# Enable key-based root access once authorized_keys is provisioned; no SSH passwords.",
   "passwd -d root",
   "chmod 755 /sbin/raptor-init /etc/init.d/raptor-boot /etc/raptor-udhcpc.script"].map text

def provisionLines (cfg : Config) : List Text :=
  scriptHead ++ beforeInstall cfg.kind ++
    installLine cfg.kind (Python.join [' '] cfg.packages) ::
      (afterInstall cfg.kind ++ scriptTail)

def provisionScript (cfg : Config) : Text :=
  Python.join ['\n'] (provisionLines cfg) ++ ['\n']

/-! ## The names of the packages -/

/-- The characters of a package name stand for themselves. -/
theorem packageChar_ordinary {c : Char}
    (h : (isLowerAlphanum c || (text "+_.-").contains c) = true) : isOrdinary c = true :=
  isOrdinary_of_class (p := fun c => isLowerAlphanum c || (text "+_.-").contains c) (by decide) h

/-- A package is a word, and not an option. -/
theorem package_ordinary {p : Text} (h : isPackage p = true) :
    IsOrdinaryWord p ∧ p.head? ≠ some '-' := by
  cases p with
  | nil => cases h
  | cons c rest =>
    obtain ⟨hc, hrest⟩ := Bool.and_eq_true_iff.mp h
    refine ⟨⟨List.cons_ne_nil _ _, ?_⟩, ?_⟩
    · intro d hd
      rcases List.mem_cons.mp hd with rfl | hd
      · exact packageChar_ordinary (by rw [hc]; rfl)
      · exact packageChar_ordinary (List.all_eq_true.mp hrest d hd)
    · intro hhead
      rw [Option.some.inj hhead] at hc
      revert hc
      decide

theorem installLine_eq (kind : Kind) (packages : Text) :
    installLine kind packages =
      ((installAssignments kind).map (fun a => a.1 ++ '=' :: a.2) ++ installWords kind).flatMap
        (· ++ [' ']) ++ packages := by
  cases kind
  · exact congrArg (· ++ packages) (by decide)
  · exact congrArg (· ++ packages) (by decide)

theorem installWords_ordinary (kind : Kind) :
    ∀ w ∈ (installAssignments kind).map (fun a => a.1 ++ '=' :: a.2) ++ installWords kind,
      IsOrdinaryWord w := by
  have hall : ((installAssignments kind).map (fun a => a.1 ++ '=' :: a.2) ++
      installWords kind).all (fun w => w != [] && w.all isOrdinary) = true := by
    cases kind <;> decide +kernel
  intro w hw
  have hword := List.all_eq_true.mp hall w hw
  rw [Bool.and_eq_true, bne_iff_ne] at hword
  exact ⟨hword.1, List.all_eq_true.mp hword.2⟩

theorem installLine_tokens (cfg : Config) :
    tokens (installLine cfg.kind (Python.join [' '] cfg.packages)) =
      some (((installAssignments cfg.kind).map (fun a => a.1 ++ '=' :: a.2) ++
        (installWords cfg.kind ++ cfg.packages)).map fun w => .word (bare w)) := by
  rw [installLine_eq, tokens_words (installWords_ordinary cfg.kind)
    fun p hp => (package_ordinary (cfg.packagesOk p hp)).1, List.append_assoc]

/-- The line with the packages is one simple command. -/
theorem installLine_command (listing : Word → List Text) (cfg : Config) :
    simpleCommand listing (installLine cfg.kind (Python.join [' '] cfg.packages)) =
      some ⟨installAssignments cfg.kind, installWords cfg.kind ++ cfg.packages⟩ := by
  obtain ⟨first, words, hwords⟩ : ∃ first words, installWords cfg.kind = first :: words := by
    cases cfg.kind <;> exact ⟨_, _, rfl⟩
  have htokens := installLine_tokens cfg
  rw [hwords] at htokens ⊢
  apply simpleCommand_of_tokens listing htokens
  · cases cfg.kind <;> decide +kernel
  · have hfirst : (installWords cfg.kind).head?.all (fun w =>
        (bare w).assignment?.isNone && !(bare w).isReserved) = true := by
      cases cfg.kind <;> decide +kernel
    rw [hwords] at hfirst
    simpa using hfirst
  · intro w hw
    have hw : w ∈ (first :: words) ++ cfg.packages := hw
    rw [← hwords] at hw
    rcases List.mem_append.mp hw with hw | hw
    · exact (installWords_ordinary cfg.kind w (List.mem_append_right _ hw)).2
    · exact (package_ordinary (cfg.packagesOk w hw)).1.2

/-! ## The script -/

theorem mem_join {sep : Text} {pieces : List Text} {c : Char} (h : c ∈ Python.join sep pieces) :
    c ∈ sep ∨ ∃ p ∈ pieces, c ∈ p := by
  induction pieces with
  | nil => simp [Python.join] at h
  | cons p pieces ih =>
    cases pieces with
    | nil =>
      rw [Python.join, List.intercalate_singleton] at h
      exact .inr ⟨p, List.mem_singleton_self p, h⟩
    | cons q pieces =>
      rw [Python.join, List.intercalate_cons_cons, List.mem_append, List.mem_append] at h
      rcases h with (h | h) | h
      · exact .inr ⟨p, List.mem_cons_self, h⟩
      · exact .inl h
      · obtain h | ⟨r, hr, h⟩ := ih h
        · exact .inl h
        · exact .inr ⟨r, List.mem_cons_of_mem _ hr, h⟩

theorem join_newline_free {packages : List Text} (h : ∀ p ∈ packages, isPackage p = true) :
    '\n' ∉ Python.join [' '] packages := by
  intro hmem
  obtain hsep | ⟨p, hp, hnewline⟩ := mem_join hmem
  · revert hsep
    decide
  · have hordinary := (package_ordinary (h p hp)).1.2 _ hnewline
    revert hordinary
    decide

theorem installLine_newline_free (cfg : Config) :
    '\n' ∉ installLine cfg.kind (Python.join [' '] cfg.packages) := by
  have hfixed : (installLine cfg.kind []).contains '\n' = false := by
    cases cfg.kind <;> decide +kernel
  have hinstall : installLine cfg.kind (Python.join [' '] cfg.packages) =
      installLine cfg.kind [] ++ Python.join [' '] cfg.packages := by
    cases cfg.kind <;> simp [installLine]
  rw [hinstall, List.mem_append, not_or]
  exact ⟨by simpa using hfixed, join_newline_free cfg.packagesOk⟩

theorem join_cons {sep line : Text} {lines : List Text} (h : lines ≠ []) :
    Python.join sep (line :: lines) = line ++ sep ++ Python.join sep lines :=
  List.intercalate_cons_of_ne_nil h

theorem join_append {sep : Text} {front back : List Text} (hfront : front ≠ []) (hback : back ≠ []) :
    Python.join sep (front ++ back) = Python.join sep front ++ sep ++ Python.join sep back := by
  induction front with
  | nil => exact absurd rfl hfront
  | cons line front ih =>
    cases front with
    | nil =>
      have hone : Python.join sep [line] = line := List.intercalate_singleton
      rw [List.singleton_append, join_cons hback, hone]
    | cons next front =>
      rw [List.cons_append, join_cons (by simp), ih (List.cons_ne_nil _ _),
        join_cons (List.cons_ne_nil _ _)]
      simp only [List.append_assoc]

/-- What stands before and after the line with the packages. -/
def scriptBefore (kind : Kind) : Text :=
  Python.join ['\n'] (scriptHead ++ beforeInstall kind) ++ ['\n']

def scriptAfter (kind : Kind) : Text :=
  ['\n'] ++ Python.join ['\n'] (afterInstall kind ++ scriptTail) ++ ['\n']

theorem provisionScript_eq (cfg : Config) :
    provisionScript cfg = scriptBefore cfg.kind ++
      installLine cfg.kind (Python.join [' '] cfg.packages) ++ scriptAfter cfg.kind := by
  have hbefore : scriptHead ++ beforeInstall cfg.kind ≠ [] := by simp [scriptHead]
  have hafter : afterInstall cfg.kind ++ scriptTail ≠ [] := by simp [scriptTail]
  rw [provisionScript, provisionLines, join_append hbefore (List.cons_ne_nil _ _), join_cons hafter]
  simp only [scriptBefore, scriptAfter, List.append_assoc]

theorem mapM_string? {items : List Toml.Value} {packages : List Text}
    (h : items.mapM Toml.Value.string? = some packages) : items = packages.map .string := by
  induction items generalizing packages with
  | nil =>
    cases h
    rfl
  | cons v items ih =>
    rw [List.mapM_cons] at h
    obtain ⟨s, hs, h⟩ := Option.bind_eq_some_iff.mp h
    obtain ⟨rest, hrest, h⟩ := Option.bind_eq_some_iff.mp h
    cases h
    rw [Toml.Value.string?_eq hs, ih hrest]
    rfl

theorem packageNames_eq {v : Toml.Value}
    {packages : { packages : List Text // ∀ p ∈ packages, isPackage p = true }}
    (h : packageNames v = some packages) : v = .array (packages.1.map .string) := by
  unfold packageNames at h
  split at h
  · split at h
    · rename_i hitems
      split at h
      · obtain rfl := Option.some.inj h
        rw [mapM_string? hitems]
      · cases h
    · cases h
  · cases h

/-- What `load_config` accepts as packages. -/
theorem loadConfig_packages {preset : Toml.Value} {cfg : Config} (h : loadConfig preset = .ok cfg) :
    ((preset.item? (text "rootfs")).bind (·.item? (text "packages"))).getD (.array []) =
      .array (cfg.packages.map .string) := by
  unfold loadConfig at h
  obtain ⟨fs, hfs, h⟩ := Python.bind_ok h
  obtain ⟨arch, _, h⟩ := Python.bind_ok h
  simp only at h
  split at h
  · obtain ⟨type, _, h⟩ := Python.bind_ok h
    obtain ⟨kind, _, h⟩ := Python.bind_ok h
    obtain ⟨image, _, h⟩ := Python.bind_ok h
    split at h
    · obtain ⟨size, _, h⟩ := Python.bind_ok h
      split at h
      · split at h
        · obtain ⟨packages, hpackages, h⟩ := Python.bind_ok h
          cases h
          rw [Python.orRaise_ok hfs, Option.bind_some]
          exact packageNames_eq (Python.orRaise_ok hpackages)
        · cases h
      · cases h
    · cases h
  · cases h

/-- For every accepted preset one line of the script is a simple command that
ends in the packages, whatever the directory holds, and the text before and after
it is the same for all presets of a kind. -/
theorem provisionScript_installs {preset : Toml.Value} {cfg : Config}
    (h : loadConfig preset = .ok cfg) :
    ((preset.item? (text "rootfs")).bind (·.item? (text "packages"))).getD (.array []) =
        .array (cfg.packages.map .string) ∧
      provisionScript cfg = scriptBefore cfg.kind ++
        installLine cfg.kind (Python.join [' '] cfg.packages) ++ scriptAfter cfg.kind ∧
      '\n' ∉ installLine cfg.kind (Python.join [' '] cfg.packages) ∧
      (∀ listing, simpleCommand listing (installLine cfg.kind (Python.join [' '] cfg.packages)) =
        some ⟨installAssignments cfg.kind, installWords cfg.kind ++ cfg.packages⟩) ∧
      ∀ p ∈ cfg.packages, p ≠ [] ∧ p.head? ≠ some '-' := by
  refine ⟨loadConfig_packages h, provisionScript_eq cfg, installLine_newline_free cfg,
    fun listing => installLine_command listing cfg, ?_⟩
  intro p hp
  obtain ⟨hword, hoption⟩ := package_ordinary (cfg.packagesOk p hp)
  exact ⟨hword.1, hoption⟩

def debianRootfs : Toml.Value :=
  .table [(text "type", .string (text "debian")), (text "image", .string (text "debian:trixie-slim")),
    (text "size_mib", .integer 1536),
    (text "packages", .array [.string (text "curl"), .string (text "g++")])]

def debianPreset : Toml.Value :=
  .table [(text "target", .table [(text "arch", .string (text "riscv64"))]),
    (text "rootfs", debianRootfs)]

def debianConfig : Config where
  rootfs := debianRootfs
  kind := .debian
  image := text "debian:trixie-slim"
  sizeMib := 1536
  packages := [text "curl", text "g++"]
  imageOk := by decide
  sizeOk := by decide
  packagesOk := by decide

theorem provisionScript_installs_debian :
    simpleCommand (fun _ => []) (installLine .debian (text "curl g++")) =
      some ⟨[(text "DEBIAN_FRONTEND", text "noninteractive")],
        ["apt_retry", "install", "-y", "--no-install-recommends", "busybox-static",
          "openssh-server", "curl", "g++"].map text⟩ := by
  have h : loadConfig debianPreset = .ok debianConfig := rfl
  exact (provisionScript_installs h).2.2.2.1 fun _ => []

end LinuxBuild.Distro
