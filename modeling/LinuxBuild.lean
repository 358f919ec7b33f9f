import LinuxBuild.Numeral
import LinuxBuild.Bytes
import LinuxBuild.Kernel
import LinuxBuild.Util
import LinuxBuild.Print
import LinuxBuild.Transfer
import LinuxBuild.Fetch
import LinuxBuild.Header
import LinuxBuild.FetchLength
import LinuxBuild.Shell
import LinuxBuild.Digest
import LinuxBuild.OpenSbi
import LinuxBuild.Crash
import LinuxBuild.Python
import LinuxBuild.Fragment
import LinuxBuild.EnsureRootfs
import LinuxBuild.RootfsRun
import LinuxBuild.RootfsTree
import LinuxBuild.RootfsPackages
import LinuxBuild.RootfsSources
import LinuxBuild.RootfsCache
import LinuxBuild.RootfsRecovery
import LinuxBuild.Sh
import LinuxBuild.Kconfig
import LinuxBuild.Utf8
import LinuxBuild.Console
import LinuxBuild.Guest
import LinuxBuild.DistroRuntime
import LinuxBuild.Repository
import LinuxBuild.Release
import LinuxBuild.Interaction
import LinuxBuild.Monitor
import LinuxBuild.Handles
import LinuxBuild.Syscall
import LinuxBuild.Stdio
import LinuxBuild.Net
import LinuxBuild.FetchRun
import LinuxBuild.Served
import LinuxBuild.Commands
import LinuxBuild.Descriptors
import LinuxBuild.Writes
import LinuxBuild.Relay
import LinuxBuild.Arguments
import LinuxBuild.Ports
import LinuxBuild.Ping
import LinuxBuild.Disk
import LinuxBuild.Copy
import LinuxBuild.Agreement
import LinuxBuild.Buffer
import LinuxBuild.SplitArgs
import LinuxBuild.StatusLine
import LinuxBuild.FetchWorld
import LinuxBuild.Outcome
import LinuxBuild.Decimals
import LinuxBuild.Ipv4
import LinuxBuild.OnesComplement
import LinuxBuild.Checksum
import LinuxBuild.Request
import LinuxBuild.Loop
import LinuxBuild.PythonBytes
import LinuxBuild.StrictUtf8
import LinuxBuild.UserElf
import LinuxBuild.Cpio
import LinuxBuild.Extract
import LinuxBuild.Audit
import LinuxBuild.CutText
import LinuxBuild.Chunks
import LinuxBuild.Wait
import LinuxBuild.Joined
import LinuxBuild.ArchiveNames
import LinuxBuild.Fingerprint
import LinuxBuild.ShellWords
import LinuxBuild.ProvisionScript
import LinuxBuild.Url
import LinuxBuild.Proxy
import LinuxBuild.BuildrootMk
import LinuxBuild.Staged
import LinuxBuild.ConfigFiles
import LinuxBuild.Configure
import LinuxBuild.CommandStatus
import LinuxBuild.History
import LinuxBuild.PrepareLinux
import LinuxBuild.KernelDir
import LinuxBuild.Acceptance
import LinuxBuild.ReleaseGate
import LinuxBuild.PackageTests
import LinuxBuild.TestedRelease
import LinuxBuild.Authority
import LinuxBuild.Processes
import LinuxBuild.Compose
import LinuxBuild.BuildRelease
import LinuxBuild.BuiltRelease
import LinuxBuild.OlderReleases
import LinuxBuild.PackagedArchive
import LinuxBuild.PackagedAudit
import LinuxBuild.PackagedDisk
import LinuxBuild.ShellSessions
import LinuxBuild.FetchImage
import LinuxBuild.ReleaseCandidate
import LinuxBuild.Observed
import LinuxBuild.Listing
