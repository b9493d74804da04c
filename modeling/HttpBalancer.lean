import HttpBalancer.Net.Lockstep
import HttpBalancer.Net.ParserCalls
import HttpBalancer.Net.Socket
import HttpBalancer.Net.ThreadPoolProgress
import HttpBalancer.Net.WriteBuffer
import HttpBalancer.Server.KeepAlive
import HttpBalancer.Server.Sessions
import HttpBalancer.Balancer.HealthChecks
import HttpBalancer.Balancer.Outages
import HttpBalancer.Balancer.Relay
import HttpBalancer.Balancer.Rotation
import HttpBalancer.Balancer.RoundRobin
import HttpBalancer.Balancer.Upstreams
import HttpBalancer.System.CommandLine
import HttpBalancer.System.Connections
import HttpBalancer.System.Ending
import HttpBalancer.System.HalfClose
import HttpBalancer.System.HangUps
import HttpBalancer.System.Interests
import HttpBalancer.System.Pipelining
import HttpBalancer.System.Polling
import HttpBalancer.System.Progress
import HttpBalancer.System.Relaying
import HttpBalancer.System.Replies
import HttpBalancer.System.Scripted
import HttpBalancer.System.Shutdown
import HttpBalancer.System.Spreading
import HttpBalancer.System.Teardown
import HttpBalancer.System.Transparency
import HttpBalancer.System.Truncation
import HttpBalancer.System.Workers
import HttpBalancer.System.Descriptors
