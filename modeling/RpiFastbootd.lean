import RpiFastbootd.Lib.Json
import RpiFastbootd.Lib.Word
import RpiFastbootd.Lib.Bytes
import RpiFastbootd.Lib.WordBytes
import RpiFastbootd.Lib.Text
import RpiFastbootd.Lib.Scan
import RpiFastbootd.Lib.Search
import RpiFastbootd.Lib.Digits
import RpiFastbootd.Lib.Path
import RpiFastbootd.Lib.Outcome
import RpiFastbootd.Lib.Steps
import RpiFastbootd.Lib.Fallible
import RpiFastbootd.Lib.Runs
import RpiFastbootd.Lib.Ring
import RpiFastbootd.Lib.Program
import RpiFastbootd.Lib.Duplex
import RpiFastbootd.Lib.StopWait
import RpiFastbootd.Lib.Wakeups
import RpiFastbootd.Idp.Types
import RpiFastbootd.Idp.Nav
import RpiFastbootd.Idp.Walk
import RpiFastbootd.Idp.Groups
import RpiFastbootd.Idp.Reach
import RpiFastbootd.Idp.Flatten
import RpiFastbootd.Idp.Parser
import RpiFastbootd.Idp.SizeText
import RpiFastbootd.Idp.Accept
import RpiFastbootd.Idp.Forest
import RpiFastbootd.Idp.Malformed
import RpiFastbootd.Idp.Containers
import RpiFastbootd.Idp.Attributes
import RpiFastbootd.Idp.Primary
import RpiFastbootd.Idp.Reuse
import RpiFastbootd.Idp.Storage
import RpiFastbootd.Idp.Capacity
import RpiFastbootd.Idp.Device
import RpiFastbootd.Idp.Parted
import RpiFastbootd.Idp.Provision
import RpiFastbootd.Idp.Alignment
import RpiFastbootd.Idp.Tree
import RpiFastbootd.Idp.BlockNames
import RpiFastbootd.Idp.Validated
import RpiFastbootd.Fastboot.Types
import RpiFastbootd.Fastboot.Partition
import RpiFastbootd.Fastboot.PartitionPath
import RpiFastbootd.Fastboot.Erase
import RpiFastbootd.Fastboot.PartitionLock
import RpiFastbootd.Fastboot.IdpCommands
import RpiFastbootd.Fastboot.IdpLifecycle
import RpiFastbootd.Fastboot.FwCrypto
import RpiFastbootd.Fastboot.Otp
import RpiFastbootd.Fastboot.OtpSafety
import RpiFastbootd.Fastboot.Bmap
import RpiFastbootd.Fastboot.Eeprom
import RpiFastbootd.Fastboot.Device
import RpiFastbootd.Fastboot.Oem
import RpiFastbootd.Fastboot.PartitionSize
import RpiFastbootd.Fastboot.SignHash
import RpiFastbootd.Fastboot.FileWrite
import RpiFastbootd.Fastboot.MacText
import RpiFastbootd.Fastboot.NetAddress
import RpiFastbootd.Fastboot.Handlers
import RpiFastbootd.Fastboot.Session
import RpiFastbootd.Fastboot.Watch
import RpiFastbootd.Fastboot.OemReplies
import RpiFastbootd.Fastboot.UploadFile
import RpiFastbootd.Fastboot.Replies
import RpiFastbootd.Fastboot.SessionSafety
import RpiFastbootd.Fastboot.Arguments
import RpiFastbootd.Fastboot.Tcp
import RpiFastbootd.Fastboot.TcpSession
import RpiFastbootd.Fastboot.TcpDownload
import RpiFastbootd.Fastboot.TcpSend
import RpiFastbootd.Fastboot.UsbIouring
import RpiFastbootd.Fastboot.UsbRead
import RpiFastbootd.Libsparse.BackedBlock
import RpiFastbootd.Libsparse.Reader
import RpiFastbootd.Libsparse.Import
import RpiFastbootd.Libsparse.Encode
import RpiFastbootd.Libsparse.Complete
import RpiFastbootd.Libsparse.Output
import RpiFastbootd.Libsparse.FileBlock
import RpiFastbootd.Libsparse.ReadNormal
import RpiFastbootd.Libsparse.Write
import RpiFastbootd.Libsparse.Written
import RpiFastbootd.Libsparse.Resparse
import RpiFastbootd.Libsparse.Pieces
import RpiFastbootd.Libsparse.Room
import RpiFastbootd.Fastboot.Flashing
import RpiFastbootd.Fastboot.FlashHandle
import RpiFastbootd.Fastboot.FlashFiles
import RpiFastbootd.Fastboot.Driver
import RpiFastbootd.Fastboot.FlashTalk
import RpiFastbootd.Fastboot.FlashServer
import RpiFastbootd.Fastboot.Lockstep
import RpiFastbootd.Fastboot.Udp
import RpiFastbootd.Fastboot.UdpLink
import RpiFastbootd.Fastboot.UdpSession
import RpiFastbootd.Fastboot.UdpWrite
import RpiFastbootd.Fastboot.ThreadPool
