import SystemdCron.Lib.Bytes

/-!
# The build configuration and the host

`Config` has what `configure` writes into `configuration.hpp`. `Host` is what the generator asks the
system it runs on: the user database, the files it stats, the clock.
-/

namespace SystemdCron

open Bytes

/-- `configuration.hpp`. -/
structure Config where
  USE_LOGLEVELMAX : Bytes := lit "no"
  USE_RUNPARTS : Bool := false
  USE_DEBIAN_BASENAME_FILTER : Bool := false
  HAVE_ONSUCCESS : Bool := true
  libexecdir : Bytes := lit "/usr/libexec"
  STATEDIR : Bytes := lit "/var/spool/cron"
  PAMNAME : Bytes := []
  PART2TIMER : List (Bytes × Bytes) := []
  CROND2TIMER : List (Bytes × Bytes) := []

namespace Config

def BOOT_DELAY (cfg : Config) : Bytes := cfg.libexecdir ++ lit "/systemd-cron/boot_delay"
def LOADAVG_DAM (cfg : Config) : Bytes := cfg.libexecdir ++ lit "/systemd-cron/loadavg_dam"
def THROTTLE_GROUP (cfg : Config) : Bytes := cfg.libexecdir ++ lit "/systemd-cron/throttle_group"

end Config

/-- What the generator uses of a `getpwnam` entry. -/
structure Passwd where
  dir : Bytes
  uid : Nat
  gid : Nat

/-- The system as the generator sees it. -/
structure Host where
  /-- `getpwnam`. -/
  getpwnam : Bytes → Option Passwd
  /-- Whether `access(path, F_OK)` succeeds. -/
  exists' : Bytes → Bool
  /-- Whether `access(path, X_OK)` succeeds. -/
  isExecutable : Bytes → Bool
  /-- Whether a user and group see a regular file under a path. -/
  isRegular : Nat → Nat → Bytes → Bool
  /-- `HAS_SENDMAIL`. -/
  hasSendmail : Bool
  /-- `UPTIME`, in seconds. -/
  uptime : Option Nat

/-- A host without users and without files. -/
def Host.bare : Host where
  getpwnam _ := none
  exists' _ := false
  isExecutable _ := false
  isRegular _ _ _ := false
  hasSendmail := false
  uptime := none

/-- `REBOOT_FILE`. -/
def REBOOT_FILE : Bytes := lit "/run/crond.reboot"

end SystemdCron
